import Mathlib.Data.List.Forall2
import ThemedPages.Proofs.Tracking

/-!
# Reports of sources that can not be read

What is reported of a source is about places in it, in order: `Template.report_placed`. An entry of a report shows the
line that its place is on, and the caret under it points at the place as long as the number of the line fits its
columns: `Report.caret_pointsAt`, and `Template.pointsAt_of_read` for all that is reported of a text.

* `Report.lines` are the lines of a source, and `Report.getElem?_lines` the one that a place is on.
* `Report.Entry.Shows` is what an entry shows of a source.
* `Report.Entry.PointsAt` says that the caret of an entry stands under a place on its line.
* `Note.IsIn` says that a note is about a place in a source.

The number of a line is a count of newlines, and the text of a line is found by looking for the newlines on either side
of a place. Both are compared with one thing, the source split at its newlines. On the line of a report the number has
four columns, and it takes more if it has more digits. The caret below has no number before it, so it stands where it
should just for numbers of four digits.
-/

namespace ThemedPages

namespace Report

/-! ## Lines

A source has one line more than it has newlines, the last of which may be empty. -/

/-- The lines of a source, without the bytes that end them. -/
def lines (source : Bytes) : List Bytes := source.splitOn newline

theorem lines_cons (b : UInt8) (rest : Bytes) :
    lines (b :: rest) = if b = newline then [] :: lines rest else (lines rest).modifyHead (b :: ·) := by
  rw [lines, List.splitOn, List.splitOnP_cons_eq_if_modifyHead]
  simp only [beq_iff_eq]
  rfl

/-- There are as many lines as newlines, and one more. -/
theorem length_lines (source : Bytes) : (lines source).length = source.count newline + 1 := by
  induction source with
  | nil => rfl
  | cons b rest ih =>
    rw [lines_cons]
    split_ifs with hb
    · rw [List.length_cons, ih, hb, List.count_cons_self]
    · rw [List.length_modifyHead, ih, List.count_cons_of_ne hb]

theorem head?_lines (source : Bytes) : (lines source).head? = some (source.takeWhile inLine) := by
  induction source with
  | nil => rfl
  | cons b rest ih =>
    rw [lines_cons]
    split_ifs with hb
    · have hnot : inLine b = false := by simp [inLine, hb]
      rw [List.head?_cons, List.takeWhile_cons_of_neg (by simp [hnot])]
    · have hin : inLine b = true := by simp [inLine, hb]
      rw [List.head?_modifyHead, ih, List.takeWhile_cons_of_pos hin]
      rfl

/-- Lines on either side of a newline are lines of the whole. -/
theorem lines_append (before after : Bytes) : lines (before ++ newline :: after) = lines before ++ lines after :=
  List.splitOnP_append_cons before after (by simp)

/-- What comes before a place is on the same line, or it ends with a line and what is on the next one. -/
theorem lineBefore_cases (before : Bytes) :
    (∀ b ∈ lineBefore before, inLine b = true) ∧
      (before = lineBefore before ∨ ∃ lead, before = lead ++ newline :: lineBefore before) := by
  have hsplit : before.reverse.takeWhile inLine ++ before.reverse.dropWhile inLine = before.reverse :=
    List.takeWhile_append_dropWhile
  have hstop := stops_dropWhile inLine before.reverse
  refine ⟨fun b hb => List.mem_takeWhile_imp (List.mem_reverse.mp hb), ?_⟩
  rw [lineBefore]
  generalize before.reverse.takeWhile inLine = line at hsplit
  rcases hrest : before.reverse.dropWhile inLine with _ | ⟨b, more⟩ <;> rw [hrest] at hsplit hstop
  · left
    rw [← List.reverse_reverse before, ← hsplit, List.append_nil]
  · right
    obtain rfl : b = newline := by simpa [inLine] using hstop b rfl
    refine ⟨more.reverse, ?_⟩
    rw [← List.reverse_reverse before, ← hsplit, List.reverse_append, List.reverse_cons, List.append_assoc]
    rfl

/-- The line that a place is on. -/
theorem getElem?_lines (before rest : Bytes) :
    (lines (before ++ rest))[before.count newline]? = some (lineBefore before ++ rest.takeWhile inLine) := by
  obtain ⟨hline, hbefore⟩ := lineBefore_cases before
  have hfirst : (lineBefore before ++ rest).takeWhile inLine = lineBefore before ++ rest.takeWhile inLine :=
    List.takeWhile_append_of_pos hline
  have hnone : (lineBefore before).count newline = 0 :=
    List.count_eq_zero.mpr fun hmem => absurd (hline _ hmem) (by decide)
  generalize lineBefore before = line at hbefore hfirst hnone
  rcases hbefore with rfl | ⟨lead, rfl⟩
  · rw [hnone, ← List.head?_eq_getElem?, head?_lines, hfirst]
  · have hcount : (lead ++ newline :: line).count newline = (lines lead).length := by
      rw [length_lines, List.count_append, List.count_cons_self, hnone]
    rw [hcount, List.append_assoc, List.cons_append, lines_append, List.getElem?_append_right (Nat.le_refl _),
      Nat.sub_self, ← List.head?_eq_getElem?, head?_lines, hfirst]

/-! ## Entries

A place is given as what is left of the source, so what is before it is the rest. -/

/-- What an entry shows of a place in a source: the number of the line that it is on, counting from one, and the line,
or that it can not be shown if it is no text. -/
structure Entry.Shows (source : Bytes) (position : Nat) (e : Entry) : Prop where
  /-- there are as many lines before it as there are ends of lines before the place -/
  line : e.line = (source.take position).count newline + 1
  /-- it is that line of the source -/
  text : ∃ line shown, (lines source)[e.line - 1]? = some line ∧
    (line = Utf8.bytes shown ∨ (∀ s, line ≠ Utf8.bytes s) ∧ shown = unshownLine) ∧
    ∀ margin, e.sourceLine margin = margin ++ padLeft 4 (Decimal.digits e.line) ++ ':' :: shown.toList

theorem take_of_suffix {source rest before : Bytes} (h : before ++ rest = source) :
    source.take (source.length - rest.length) = before := by
  rw [← h, List.length_append, Nat.add_sub_cancel, List.take_left]

/-- **An entry shows the line that its place is on,** with its number. -/
theorem shows_entryAt {source rest : Bytes} (h : rest <:+ source) (message : String) :
    (entryAt source rest message).Shows source (source.length - rest.length) := by
  obtain ⟨before, hsplit⟩ := h
  refine ⟨rfl, lineBefore before ++ rest.takeWhile inLine,
    (entryAt source rest message).text.getD unshownLine, ?_, ?_, fun margin => rfl⟩
  · rw [entryAt, take_of_suffix hsplit, Nat.add_sub_cancel, ← hsplit]
    exact getElem?_lines before rest
  · rw [entryAt, take_of_suffix hsplit]
    generalize lineBefore before ++ rest.takeWhile inLine = line
    rcases hread : Utf8.read? line with _ | s
    · refine .inr ⟨?_, rfl⟩
      rintro s rfl
      rw [Utf8.read?_bytes] at hread
      cases hread
    · exact .inl (Utf8.eq_bytes_of_read? hread)

/-! ## Carets

For a place in a text, between two characters, the line and the column are those of characters. A newline is a byte of
no other character, so lines of bytes are lines of characters. -/

/-- What stands of a line before its end, or before the end of the text. -/
def firstLine (chars : List Char) : List Char := chars.takeWhile (· ≠ '\n')

/-- What stands of a line after its beginning, up to the end of the text. -/
def lastLine (chars : List Char) : List Char := (chars.reverse.takeWhile (· ≠ '\n')).reverse

/-- What is shown about the place between two texts. -/
def entryBetween (before after message : String) : Entry :=
  entryAt (Utf8.bytes (before ++ after)) (Utf8.bytes after) message

/-- The caret of the entry stands under what its line goes on with at the place: as many characters are before the one
as before the other. -/
def Entry.PointsAt (margin tail : List Char) (e : Entry) : Prop :=
  ∃ line indent, e.sourceLine margin = line ++ tail ∧ e.caretLine margin = indent ++ '^' :: ' ' :: e.message.toList ∧
    line.length = indent.length

/-- Of all characters, only the one that ends a line has the byte that ends it. -/
theorem encodeChar_cases (c : Char) :
    c = '\n' ∧ Utf8.encodeChar c = [newline] ∨ c ≠ '\n' ∧ ∀ b ∈ Utf8.encodeChar c, inLine b = true := by
  by_cases hc : c = '\n'
  · exact .inl ⟨hc, hc ▸ rfl⟩
  · refine .inr ⟨hc, fun b hb => ?_⟩
    have hne : b ≠ newline := Utf8.ne_of_mem_encodeChar (c := '\n') (by decide) hc hb
    simp [inLine, hne]

/-- There are as many newlines in the bytes as in the characters. -/
theorem count_encode (cs : List Char) : (Utf8.encode cs).count newline = cs.count '\n' := by
  induction cs with
  | nil => rfl
  | cons c cs ih =>
    rw [Utf8.encode, List.flatMap_cons, List.count_append, ← Utf8.encode, ih]
    rcases encodeChar_cases c with ⟨rfl, hbytes⟩ | ⟨hc, hbytes⟩
    · rw [hbytes, List.count_singleton_self, List.count_cons_self, Nat.add_comm]
    · have hnone : (Utf8.encodeChar c).count newline = 0 :=
        List.count_eq_zero.mpr fun hmem => absurd (hbytes _ hmem) (by decide)
      rw [hnone, Nat.zero_add, List.count_cons_of_ne hc]

theorem takeWhile_encode (cs : List Char) : (Utf8.encode cs).takeWhile inLine = Utf8.encode (firstLine cs) := by
  induction cs with
  | nil => rfl
  | cons c cs ih =>
    rw [Utf8.encode, List.flatMap_cons, ← Utf8.encode, firstLine]
    rcases encodeChar_cases c with ⟨rfl, hbytes⟩ | ⟨hc, hbytes⟩
    · rw [hbytes, List.takeWhile_cons_of_neg (by simp)]
      rfl
    · rw [List.takeWhile_append_of_pos hbytes, ih, List.takeWhile_cons_of_pos (by simpa using hc)]
      rfl

theorem lineBefore_encode (cs : List Char) : lineBefore (Utf8.encode cs) = Utf8.encode (lastLine cs) := by
  induction cs using List.reverseRecOn with
  | nil => rfl
  | append_singleton cs c ih =>
    have hone : Utf8.encode [c] = Utf8.encodeChar c := List.append_nil _
    rw [Utf8.encode_append, hone, lineBefore, List.reverse_append, lastLine, List.reverse_append]
    rcases encodeChar_cases c with ⟨rfl, hbytes⟩ | ⟨hc, hbytes⟩
    · rw [hbytes]
      rfl
    · rw [List.takeWhile_append_of_pos fun b hb => hbytes b (List.mem_reverse.mp hb),
        List.takeWhile_append_of_pos fun d hd => by simpa using (List.mem_singleton.mp hd ▸ hc),
        List.reverse_append, List.reverse_append, List.reverse_reverse, List.reverse_reverse, ← lineBefore, ih,
        Utf8.encode_append, hone]
      rfl

/-- What an entry between two characters has in it, said of characters. -/
theorem entryBetween_eq (before after message : String) :
    entryBetween before after message =
      { line := before.toList.count '\n' + 1
        text := some (String.ofList (lastLine before.toList ++ firstLine after.toList))
        column := (lastLine before.toList).length + 1
        message } := by
  have htake := take_of_suffix (Utf8.bytes_append before after).symm
  have hline : lineBefore (Utf8.bytes before) ++ (Utf8.bytes after).takeWhile inLine =
      Utf8.bytes (String.ofList (lastLine before.toList ++ firstLine after.toList)) := by
    rw [Utf8.bytes, Utf8.bytes, lineBefore_encode, takeWhile_encode, Utf8.bytes, String.toList_ofList,
      Utf8.encode_append]
  rw [entryBetween, entryAt, htake, hline, Utf8.read?_bytes, Utf8.bytes, count_encode, lineBefore_encode,
    Utf8.decode_encode]

theorem length_padLeft (width : Nat) (chars : List Char) : (padLeft width chars).length = max width chars.length := by
  rw [padLeft, List.length_append, List.length_replicate]
  omega

/-- The two lines of an entry, cut at the place and at the caret. -/
theorem exists_lines_entryBetween (before after message : String) (margin : List Char) :
    ∃ line indent, (entryBetween before after message).sourceLine margin = line ++ firstLine after.toList ∧
      (entryBetween before after message).caretLine margin = indent ++ '^' :: ' ' :: message.toList ∧
      line.length = indent.length + ((Decimal.digits (entryBetween before after message).line).length - 4) := by
  rw [entryBetween_eq]
  refine ⟨margin ++ padLeft 4 (Decimal.digits (before.toList.count '\n' + 1)) ++ ':' :: lastLine before.toList,
    margin ++ List.replicate 5 ' ' ++ List.replicate (lastLine before.toList).length ' ', ?_, ?_, ?_⟩
  · simp [Entry.sourceLine]
  · simp [Entry.caretLine, padLeft]
  · simp only [List.length_append, List.length_cons, List.length_replicate, length_padLeft]
    omega

theorem length_digits_le_four {n : Nat} : (Decimal.digits n).length ≤ 4 ↔ n < 10000 :=
  Nat.length_toDigits_le_iff (by decide) (by decide)

/-- **The caret points at the place exactly if the number of the line has at most four digits.** -/
theorem pointsAt_entryBetween {before after message : String} {margin : List Char} :
    (entryBetween before after message).PointsAt margin (firstLine after.toList) ↔
      (entryBetween before after message).line < 10000 := by
  obtain ⟨line, indent, hline, hindent, hlength⟩ := exists_lines_entryBetween before after message margin
  rw [← length_digits_le_four]
  constructor
  · rintro ⟨line', indent', hline', hindent', hlength'⟩
    obtain rfl : line' = line := List.append_cancel_right (hline'.symm.trans hline)
    obtain rfl : indent' = indent := List.append_cancel_right (hindent'.symm.trans hindent)
    omega
  · intro hle
    exact ⟨line, indent, hline, hindent, by omega⟩

/-- The line of an entry goes on with what comes after its place, and its caret stands by as many columns before that as
the number of the line has digits more than four: so it points at the place just where there are less than ten thousand
lines up to it, wherever the place is on its line and whatever stands there. -/
theorem caret_pointsAt (before after message : String) (margin : List Char) :
    (∃ line indent, (entryBetween before after message).sourceLine margin = line ++ firstLine after.toList ∧
      (entryBetween before after message).caretLine margin = indent ++ '^' :: ' ' :: message.toList ∧
      line.length = indent.length + ((Decimal.digits (before.toList.count '\n' + 1)).length - 4)) ∧
    ((entryBetween before after message).PointsAt margin (firstLine after.toList) ↔
      before.toList.count '\n' + 1 < 10000) := by
  have hnumber : (entryBetween before after message).line = before.toList.count '\n' + 1 := by rw [entryBetween_eq]
  rw [← hnumber]
  exact ⟨exists_lines_entryBetween before after message margin, pointsAt_entryBetween⟩

/-- On line ten thousand the caret does not stand under its place. -/
theorem not_forall_pointsAt : ¬ ∀ (before after message : String) (margin : List Char),
    (entryBetween before after message).PointsAt margin (firstLine after.toList) := by
  intro h
  have hpoints := h (String.ofList (List.replicate 9999 '\n')) "\x7d" "Expected '@'" []
  rw [pointsAt_entryBetween, entryBetween_eq, String.toList_ofList, List.count_replicate_self] at hpoints
  exact absurd hpoints (by decide)

/-! ## Reports

There is an entry for each note that says something. If none does, there is one for the innermost note. -/

/-- The notes that say something have an entry each, in order. -/
theorem forall₂_shown (source : Bytes) (trace : Trace) :
    List.Forall₂ (fun note e => ∃ message, e = entryAt source note.rest message)
      (trace.filter fun note => (message? note.remark).isSome) (trace.filterMap (shown? source)) := by
  induction trace with
  | nil => exact .nil
  | cons note rest ih =>
    rcases hmessage : message? note.remark with _ | message
    · rw [List.filter_cons_of_neg (by simp [hmessage]), List.filterMap_cons_none (by simp [shown?, hmessage])]
      exact ih
    · rw [List.filter_cons_of_pos (by simp [hmessage]),
        List.filterMap_cons_some (show shown? source note = some _ by simp [shown?, hmessage]; rfl)]
      exact .cons ⟨message, rfl⟩ ih

/-- What is reported is about notes of the trace, in order, and it is not nothing. -/
theorem exists_notes_ofTrace (source : Bytes) {trace : Trace} (h : trace ≠ []) :
    ∃ notes, notes ≠ [] ∧ notes.Sublist trace ∧
      List.Forall₂ (fun note e => ∃ message, e = entryAt source note.rest message) notes (ofTrace source trace) := by
  have hnotes := forall₂_shown source trace
  unfold ofTrace
  split
  · -- nothing is said, and the innermost note is shown
    rw [List.getLast?_eq_some_getLast h]
    exact ⟨[trace.getLast h], List.cons_ne_nil _ _, List.singleton_sublist.mpr (List.getLast_mem h), .cons ⟨_, rfl⟩ .nil⟩
  · next hsome =>
    refine ⟨_, fun hnil => ?_, List.filter_sublist, hnotes⟩
    rw [hnil, List.forall₂_nil_left_iff] at hnotes
    exact hsome hnotes

/-- Each entry is one for a note, at its place. -/
theorem exists_note_of_mem {source : Bytes} {trace : Trace} (h : trace ≠ []) {e : Entry} (he : e ∈ ofTrace source trace) :
    ∃ note ∈ trace, ∃ message, e = entryAt source note.rest message := by
  obtain ⟨notes, -, hsublist, hnotes⟩ := exists_notes_ofTrace source h
  obtain ⟨i, hi, rfl⟩ := List.getElem_of_mem he
  have hi' : i < notes.length := hnotes.length_eq ▸ hi
  exact ⟨notes[i], hsublist.subset (List.getElem_mem hi'), hnotes.get hi' hi⟩

/-- Entries that show places one after the other have numbers of lines that never go back. -/
theorem pairwise_line {source : Bytes} {positions : List Nat} {report : Report}
    (h : List.Forall₂ (fun position e => e.Shows source position) positions report)
    (hpositions : positions.Pairwise (· ≤ ·)) : report.Pairwise fun e e' => e.line ≤ e'.line := by
  have hlines : positions.map (fun position => (source.take position).count newline + 1) = report.map Entry.line := by
    rw [← List.forall₂_eq_eq_eq, List.forall₂_map_left_iff, List.forall₂_map_right_iff]
    exact h.imp fun position e he => he.line.symm
  rw [← List.pairwise_map (f := Entry.line) (R := (· ≤ ·)), ← hlines, List.pairwise_map]
  refine hpositions.imp fun hle => Nat.add_le_add_right ?_ 1
  exact (List.take_prefix_take_left hle).sublist.count_le newline

end Report

/-! ## Sources that can not be read

What is noted while a source is read goes on from place to place, so the places in a report do, and so do their lines.
-/

/-- The byte of a source that a note is about. -/
def Note.position (source : Bytes) (note : Note) : Nat := source.length - note.rest.length

/-- The note is about a place in a source. -/
structure Note.IsIn (source : Bytes) (note : Note) : Prop where
  /-- it is about a rest of the source -/
  suffix : note.rest <:+ source
  /-- if the source is a text, the rest begins with one of its characters -/
  boundary (text : String) (h : source = Utf8.bytes text) :
    ∃ before after, text = before ++ after ∧ note.rest = Utf8.bytes after

namespace Trace.GoesOn

variable {source : Bytes} {trace : Trace}

theorem positions (h : Trace.GoesOn source trace) :
    trace.Pairwise fun note note' => note.position source ≤ note'.position source :=
  h.ordered.imp fun hsuffix => Nat.sub_le_sub_left hsuffix.length_le _

/-- A trace of reading a text is about places between its characters, for the text needs no mending. -/
theorem isIn (h : Trace.GoesOn source trace) (hmend : Utf8.mend source = source → trace.map Note.mend = trace) :
    ∀ note ∈ trace, note.IsIn source := by
  intro note hnote
  refine ⟨h.suffix note hnote, fun text htext => ?_⟩
  have hsame := hmend (by rw [htext, Utf8.mend_bytes])
  rw [← List.map_id trace, List.map_map, List.map_inj_left] at hsame
  have hrest : Utf8.mend note.rest = note.rest := congrArg Note.rest (hsame note hnote)
  exact Utf8.exists_split_of_suffix hrest (htext ▸ h.suffix note hnote)

end Trace.GoesOn

namespace Template

variable {name template : String} {source : Bytes} {report : Report}

/-- What is reported of a source is what was noted when it was read. -/
theorem exists_trace_of_read (h : Template.read name source = .error (.malformed template report)) :
    ∃ trace, (Grammar.document source = .refused trace ∨ Grammar.document source = .failed trace) ∧
      report = Report.ofTrace source trace := by
  unfold Template.read at h
  split at h
  · split at h
    · cases h
    · next flaw _ => cases flaw <;> cases h
  · next trace htrace =>
    cases h
    exact ⟨trace, .inl htrace, rfl⟩
  · next trace htrace =>
    cases h
    exact ⟨trace, .inr htrace, rfl⟩

/-- The notes on a source that can not be read go on from its beginning, and are about places in it. -/
theorem goesOn_of_document {trace : Trace}
    (h : Grammar.document source = .refused trace ∨ Grammar.document source = .failed trace) :
    Trace.GoesOn source trace ∧ ∀ note ∈ trace, note.IsIn source := by
  obtain ⟨htrace, hsame⟩ := (Grammar.tracks_document source (List.suffix_refl source)).goesOn h
  exact ⟨htrace, htrace.isIn fun hmend => hsame (by rw [hmend])⟩

/-- Where a source can not be read, each note on it is about a rest of it, which begins with a character if the source
is a text; from the outermost note to the innermost the places never go back. What is reported is about some of the
notes, in this order, and not about none: each entry shows the line that the place of its note is on, with its number,
so that the numbers never go back either. -/
theorem report_placed (h : Template.read name source = .error (.malformed template report)) :
    ∃ trace : Trace, (Grammar.document source = .refused trace ∨ Grammar.document source = .failed trace) ∧
      report = Report.ofTrace source trace ∧ (∀ note ∈ trace, note.IsIn source) ∧
      (trace.Pairwise fun note note' => note.position source ≤ note'.position source) ∧
      report ≠ [] ∧
      (∃ notes, notes.Sublist trace ∧
        List.Forall₂ (fun note e => e.Shows source (note.position source)) notes report) ∧
      report.Pairwise fun e e' => e.line ≤ e'.line := by
  obtain ⟨trace, hdocument, rfl⟩ := exists_trace_of_read h
  obtain ⟨hgoesOn, hisIn⟩ := goesOn_of_document hdocument
  -- the entries come from some of the notes of the trace, in their order
  obtain ⟨notes, hne, hsublist, hnotes⟩ := Report.exists_notes_ofTrace source hgoesOn.ne_nil
  have hshows : List.Forall₂ (fun note e => e.Shows source (note.position source)) notes
      (Report.ofTrace source trace) := by
    have hsuffix : ∀ note ∈ notes, note.rest <:+ source := fun note hnote =>
      hgoesOn.suffix note (hsublist.subset hnote)
    refine ((List.forall₂_and_left notes _).mpr ⟨hsuffix, hnotes⟩).imp fun note e ⟨hnote, message, he⟩ => ?_
    exact he ▸ Report.shows_entryAt hnote message
  refine ⟨trace, hdocument, rfl, hisIn, hgoesOn.positions, ?_, ⟨notes, hsublist, hshows⟩, ?_⟩
  · intro hnil
    rw [hnil, List.forall₂_nil_right_iff] at hnotes
    exact hne hnotes
  · refine Report.pairwise_line (List.forall₂_map_left_iff.mpr hshows) ?_
    exact List.pairwise_map.mpr (hgoesOn.positions.sublist hsublist)

/-- A helper in a condition is called with too many arguments: what surrounds the call is reported before the arguments,
which are on the next line. -/
theorem report_placed_nested :
    let source := Utf8.bytes "<p>\n@if ok \x7b\n  é @h.markdown(a, \n \"ü\")\x7d\n"
    let report : Report :=
      [⟨2, some "@if ok \x7b", 5, "Error in conditional expression:"⟩,
        ⟨2, some "@if ok \x7b", 9, "Error in expression starting here:"⟩,
        ⟨3, some "  é @h.markdown(a, ", 8, "Wrong number of helper arguments"⟩]
    read "page.html" source = .error (.malformed "page.html" report) ∧
      ∃ trace : Trace, (Grammar.document source = .refused trace ∨ Grammar.document source = .failed trace) ∧
        report = Report.ofTrace source trace ∧ (∀ note ∈ trace, note.IsIn source) ∧
        (trace.Pairwise fun note note' => note.position source ≤ note'.position source) ∧
        ∃ notes, notes.Sublist trace ∧
          List.Forall₂ (fun note e => e.Shows source (note.position source)) notes report := by
  intro source report
  have hmap : (read "page.html" source).map (fun _ => ()) = .error (.malformed "page.html" report) := by
    decide +kernel
  clear_value source report
  have hread : read "page.html" source = .error (.malformed "page.html" report) := by
    rcases h : read "page.html" source with e | t <;> rw [h] at hmap <;> cases hmap
    rfl
  obtain ⟨trace, hdocument, hreport, hplaces, hpositions, -, hnotes, -⟩ := report_placed hread
  exact ⟨hread, trace, hdocument, hreport, hplaces, hpositions, hnotes⟩

/-- Where a text of less than ten thousand lines can not be read, the carets of what is reported point at places
between its characters. -/
theorem pointsAt_of_read {text : String} (h : Template.read name (Utf8.bytes text) = .error (.malformed template report))
    (hlines : text.toList.count '\n' + 1 < 10000) :
    ∀ e ∈ report, ∃ before after, text = before ++ after ∧ e = Report.entryBetween before after e.message ∧
      ∀ margin, e.PointsAt margin (Report.firstLine after.toList) := by
  obtain ⟨trace, hdocument, rfl⟩ := exists_trace_of_read h
  obtain ⟨hgoesOn, hisIn⟩ := goesOn_of_document hdocument
  intro e he
  obtain ⟨note, hnote, message, rfl⟩ := Report.exists_note_of_mem hgoesOn.ne_nil he
  obtain ⟨before, after, rfl, hrest⟩ := (hisIn note hnote).boundary text rfl
  rw [hrest]
  refine ⟨before, after, rfl, rfl, fun margin => Report.pointsAt_entryBetween.mpr ?_⟩
  rw [Report.entryBetween_eq]
  rw [String.toList_append, List.count_append] at hlines
  dsimp only
  omega

end Template

end ThemedPages
