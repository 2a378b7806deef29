import ThemedPages.Proofs.Escaping

/-!
# The two faces of a value

What a value adds to a page is its plain text once every text in it is escaped, and nothing else is changed: the
separators, the digits of numbers, and that nothing is shown of what has no text. `Value.shows_escaped` says so, and
what it comes to for values without html of their own and for values without texts.

* `Html.Plain` characters can be written as they are; those of numbers are plain: `Decimal.plain_float`.
* `Value.escaped` is a value with its texts escaped, and `Value.parts` are the parts of it that are shown.

The two faces are two recursions on values that go the same way: one makes pieces for a page, where texts are escaped
when they are written, and one makes a text. They are compared at the leaves. A text is escaped on one side and was
escaped on the other, a number is the same on both since its characters are plain, and the rest is how lists are put
together.
-/

namespace ThemedPages

/-! ## What does not need to be escaped

Digits, a sign, a point and the letters of what is no number are plain. So the text of any number is, whichever of its
forms it has. -/

namespace Html

/-- The characters can be written as they are. -/
def Plain (cs : List Char) : Prop := ∀ c ∈ cs, c ∉ specials

instance (cs : List Char) : Decidable (Plain cs) := List.decidableBAll (· ∉ specials) cs

theorem escapeChar_of_plain {c : Char} (h : c ∉ specials) : escapeChar c = [c] := by
  unfold escapeChar
  split
  · exact absurd (by decide) h
  · exact absurd (by decide) h
  · exact absurd (by decide) h
  · exact absurd (by decide) h
  · exact absurd (by decide) h
  · rfl

/-- Escaping leaves plain characters as they are. -/
theorem escapeChars_of_plain {cs : List Char} (h : Plain cs) : escapeChars cs = cs := by
  rw [escapeChars, List.flatMap_congr fun c hc => escapeChar_of_plain (h c hc), List.flatMap_singleton']

theorem escape_of_plain {s : String} (h : Plain s.toList) : escape s = s := by
  rw [escape_eq, escapeChars_of_plain h, String.ofList_toList]

theorem escape_append (s t : String) : escape (s ++ t) = escape s ++ escape t := by
  rw [escape_eq, escape_eq, escape_eq, String.toList_append, escapeChars_append, String.ofList_append]

end Html

namespace Decimal

/-- No digit has a meaning in html. -/
theorem plain_digits {n : Nat} {c : Char} (h : c ∈ digits n) : c ∉ Html.specials := by
  have hdigit : c.isDigit = true := Nat.isDigit_of_mem_toDigits (by decide) (by decide) h
  simp only [Html.specials, List.mem_cons, List.not_mem_nil, or_false]
  rintro (rfl | rfl | rfl | rfl | rfl) <;> exact absurd hdigit (by decide)

/-- Whole numbers are plain, with a sign or without. -/
theorem plain_integer (n : Int) : Html.Plain (integer n).toList := by
  intro c hc
  rw [integer, String.toList_ofList, integerChars] at hc
  split_ifs at hc
  · rcases List.mem_cons.mp hc with rfl | hc
    · decide
    · exact plain_digits hc
  · exact plain_digits hc

/-- A decimal is written in digits and at most one point. -/
theorem plain_positional (d : Scaled) : Html.Plain d.positional := by
  have hzeros : ∀ {n : Nat} {c : Char}, c ∈ List.replicate n '0' → c ∉ Html.specials := fun hc => by
    rw [List.eq_of_mem_replicate hc]
    decide
  intro c hc
  unfold Scaled.positional at hc
  dsimp only at hc
  split_ifs at hc
  · exact (List.mem_append.mp hc).elim plain_digits hzeros
  · rcases List.mem_append.mp hc with hc | hc
    · exact plain_digits (List.mem_of_mem_take hc)
    · rcases List.mem_cons.mp hc with rfl | hc
      · decide
      · exact plain_digits (List.mem_of_mem_drop hc)
  · rcases List.mem_append.mp hc with hc | hc
    · rcases List.mem_append.mp hc with hc | hc
      · rcases List.mem_pair.mp hc with rfl | rfl <;> decide
      · exact hzeros hc
    · exact plain_digits hc

/-- The digits of a number with a fraction are plain, in either form. -/
theorem plain_magnitudeChars (biased fraction : Nat) : Html.Plain (magnitudeChars biased fraction) := by
  unfold magnitudeChars
  split_ifs
  · decide
  · exact plain_positional _
  · exact plain_positional _

/-- Nothing in the text of a number has a meaning in html, be the number finite or not. -/
theorem plain_float (x : Float) : Html.Plain (float x).toList := by
  have hminus : '-' ∉ Html.specials := by decide
  unfold float
  dsimp only
  split_ifs
  · decide
  · simp only [List.nil_append, String.toList_ofList]
    decide
  · simp only [List.singleton_append, String.toList_ofList]
    decide
  · simp only [List.nil_append, String.toList_ofList]
    exact plain_magnitudeChars _ _
  · simp only [List.singleton_append, String.toList_ofList]
    exact List.forall_mem_cons.mpr ⟨hminus, plain_magnitudeChars _ _⟩

end Decimal

/-! ## Lists of texts

A list is shown with commas between its items. These are plain too. -/

theorem bytes_intercalate_cons (s t : String) (ts : List String) :
    Utf8.bytes (", ".intercalate (s :: t :: ts)) =
      Utf8.bytes s ++ (Utf8.bytes ", " ++ Utf8.bytes (", ".intercalate (t :: ts))) := by
  rw [String.intercalate_cons_cons, Utf8.bytes_append, Utf8.bytes_append, List.append_assoc]

/-- The separator is escaped as itself. -/
theorem Html.escape_intercalate (ts : List String) :
    escape (", ".intercalate ts) = ", ".intercalate (ts.map escape) := by
  have hseparator : escape ", " = ", " := escape_of_plain (by decide)
  induction ts with
  | nil => rfl
  | cons t ts ih =>
    cases ts with
    | nil => simp
    | cons u us =>
      rw [String.intercalate_cons_cons, escape_append, escape_append, hseparator, ih]
      simp [String.intercalate_cons_cons]

namespace Value

mutual

/-- The value with the texts in it escaped, at any depth of lists. -/
def escaped : Value → Value
  | string s => string (Html.escape s)
  | list items => list (escapedAll items)
  | v => v

/-- Some values with the texts in them escaped. -/
def escapedAll : List Value → List Value
  | [] => []
  | v :: vs => v.escaped :: escapedAll vs

end

mutual

/-- The parts of a value that are shown: itself, or those of its items. -/
def parts : Value → List Value
  | list items => partsOf items
  | v => [v]

/-- The parts of some values that are shown. -/
def partsOf : List Value → List Value
  | [] => []
  | v :: vs => v.parts ++ partsOf vs

end

/-! ## What is shown

By induction on the value, together with the same for the items of a list. -/

mutual

/-- **What a value adds to a page are the bytes of its text with every text in it escaped.** -/
theorem bytes_pieces : ∀ v : Value, v.pieces.flatMap Piece.bytes = Utf8.bytes v.escaped.text
  | null | map _ => rfl
  | safe s => by simp [pieces, escaped, text, Piece.bytes]
  | string s => by simp [pieces, escaped, text, Piece.bytes, Html.bytes_escape]
  | bool b => by
    have hplain : Html.escape (if b then "true" else "false") = if b then "true" else "false" :=
      Html.escape_of_plain (by cases b <;> decide)
    simp only [pieces, escaped, text, List.flatMap_singleton, Piece.bytes, ← Html.bytes_escape, hplain]
  | int n => by
    have hplain := Html.escape_of_plain (Decimal.plain_integer n)
    simp only [pieces, escaped, text, List.flatMap_singleton, Piece.bytes, ← Html.bytes_escape, hplain]
  | float x => by
    have hplain := Html.escape_of_plain (Decimal.plain_float x)
    simp only [pieces, escaped, text, List.flatMap_singleton, Piece.bytes, ← Html.bytes_escape, hplain]
  | list [] => rfl
  | list (v :: vs) => by
    rw [pieces, listPieces, List.flatMap_append, bytes_pieces v, escaped, text, escapedAll, texts]
    exact bytes_restPieces v.escaped.text vs

/-- What comes after the first item of a list is what is joined to its text. -/
theorem bytes_restPieces : ∀ (s : String) (vs : List Value),
    Utf8.bytes s ++ (restPieces vs).flatMap Piece.bytes = Utf8.bytes (", ".intercalate (s :: texts (escapedAll vs)))
  | s, [] => by simp [restPieces, escapedAll, texts]
  | s, v :: vs => by
    rw [escapedAll, texts, bytes_intercalate_cons, ← bytes_restPieces v.escaped.text vs, ← bytes_pieces v, restPieces,
      List.cons_append, List.flatMap_cons, List.flatMap_append]
    rfl

end

mutual

/-- The text of a value without html of its own, with its texts escaped, is its text escaped. -/
theorem text_escaped_of_plain : ∀ v : Value, (∀ s, .safe s ∉ v.parts) → v.escaped.text = Html.escape v.text
  | null, _ | map _, _ => rfl
  | string s, _ => rfl
  | safe s, h => absurd (List.mem_singleton_self _) (h s)
  | bool b, _ => (Html.escape_of_plain (by cases b <;> decide)).symm
  | int n, _ => (Html.escape_of_plain (Decimal.plain_integer n)).symm
  | float x, _ => (Html.escape_of_plain (Decimal.plain_float x)).symm
  | list items, h => by
    rw [escaped, text, text, Html.escape_intercalate, texts_escapedAll_of_plain items h]

theorem texts_escapedAll_of_plain : ∀ vs : List Value, (∀ s, .safe s ∉ partsOf vs) →
    texts (escapedAll vs) = (texts vs).map Html.escape
  | [], _ => rfl
  | v :: vs, h => by
    have hv := text_escaped_of_plain v fun s hs => h s (List.mem_append_left _ hs)
    have hvs := texts_escapedAll_of_plain vs fun s hs => h s (List.mem_append_right _ hs)
    rw [escapedAll, texts, hv, hvs, texts, List.map_cons]

end

mutual

/-- Where there are no texts, there are none to escape. -/
theorem text_escaped_of_noText : ∀ v : Value, (∀ s, .string s ∉ v.parts) → v.escaped.text = v.text
  | null, _ | map _, _ | safe _, _ | bool _, _ | int _, _ | float _, _ => rfl
  | string s, h => absurd (List.mem_singleton_self _) (h s)
  | list items, h => by rw [escaped, text, text, texts_escapedAll_of_noText items h]

theorem texts_escapedAll_of_noText : ∀ vs : List Value, (∀ s, .string s ∉ partsOf vs) →
    texts (escapedAll vs) = texts vs
  | [], _ => rfl
  | v :: vs, h => by
    have hv := text_escaped_of_noText v fun s hs => h s (List.mem_append_left _ hs)
    have hvs := texts_escapedAll_of_noText vs fun s hs => h s (List.mem_append_right _ hs)
    rw [escapedAll, texts, hv, hvs, texts]

end

/-- The html of a value is that text, so it is the same whether it is written or asked for. -/
theorem html_eq (v : Value) : v.html = v.escaped.text := by
  rw [html, bytes_pieces, Utf8.lossy_bytes]

/-- What a value writes, to whatever sink takes something of each offer, are the bytes of its plain text with the texts
in it escaped, at any depth of lists, and all else as it is. So the html of a value that shows no html made elsewhere is
its plain text escaped, and that of a value that shows no texts is its plain text. -/
theorem shows_escaped :
    (∀ v : Value, v.html = v.escaped.text ∧ v.pieces.flatMap Piece.bytes = Utf8.bytes v.escaped.text ∧
      ∀ {σ : Type} (sink : Sink σ), sink.Willing → ∀ (st : σ) (log : Bytes),
        (sink.recording.feed (v.pieces.map .wrote) (st, log)).outcome = .ok () ∧
          (sink.recording.feed (v.pieces.map .wrote) (st, log)).sink.2 = log ++ Utf8.bytes v.escaped.text) ∧
    (∀ v : Value, (∀ s, .safe s ∉ v.parts) → v.html = Html.escape v.text) ∧
    ∀ v : Value, (∀ s, .string s ∉ v.parts) → v.html = v.text := by
  refine ⟨fun v => ⟨html_eq v, bytes_pieces v, fun sink hsink st log => ?_⟩, fun v h => ?_, fun v h => ?_⟩
  · have hwritten : bytesOf (v.pieces.map .wrote) = Utf8.bytes v.escaped.text := by
      rw [← bytes_pieces, bytesOf, List.flatMap_map]
      rfl
    have hfed := hsink.logs.feed (rfl : (st, log).2 = log) (v.pieces.map .wrote)
    generalize sink.recording.feed (v.pieces.map .wrote) (st, log) = fed at hfed
    cases hfed with
    | all hlog => exact ⟨rfl, by rw [hlog, hwritten]⟩
    | part _ _ _ hfails => exact hfails.elim
  · rw [html_eq, text_escaped_of_plain v h]
  · rw [html_eq, text_escaped_of_noText v h]

/-- Separators are written between all items, those that show nothing and empty lists among them. -/
theorem shows_escaped_mixed :
    let v := list [string "a<b", safe "<em>c</em>", list [null, list []], int (-3)]
    let plain := list [string "a<b", list [bool true, string "&lt;"], map [("x", safe "<br>")]]
    let numbers := list [safe "<br>", list [int 7, null]]
    v.html = "a&lt;b, <em>c</em>, , , -3" ∧
    (Sink.memory.Willing ∧ (Sink.memory.recording.feed (v.pieces.map .wrote) (.nothing, [])).sink.2 =
      Utf8.bytes "a&lt;b, <em>c</em>, , , -3") ∧
    ((∀ s, .safe s ∉ plain.parts) ∧ plain.html = Html.escape "a<b, true, &lt;, ") ∧
    ((∀ s, .string s ∉ numbers.parts) ∧ numbers.html = "<br>, 7, ") := by
  intro v plain numbers
  have hmemory : Sink.memory.Willing := fun data kept hdata =>
    ⟨data.length, _, rfl, List.length_pos_iff.mpr hdata, Nat.le_refl _⟩
  have hplain : ∀ s, .safe s ∉ plain.parts := by simp [plain, parts, partsOf]
  have hnumbers : ∀ s, .string s ∉ numbers.parts := by simp [numbers, parts, partsOf]
  have htext : v.escaped.text = "a&lt;b, <em>c</em>, , , -3" := by decide
  obtain ⟨hall, hescaped, hsame⟩ := shows_escaped
  obtain ⟨hhtml, -, hfed⟩ := hall v
  refine ⟨hhtml.trans htext, ⟨hmemory, ?_⟩, ⟨hplain, ?_⟩, hnumbers, ?_⟩
  · rw [(hfed _ hmemory _ _).2, htext, List.nil_append]
  · rw [hescaped plain hplain]
    congr 1
  · rw [hsame numbers hnumbers]
    decide

end Value

end ThemedPages
