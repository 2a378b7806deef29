import ThemedPages.Proofs.Mending
import ThemedPages.Proofs.Truncation

/-!
# Escaping is exact

Escaping through a sink is the map on bytes that replaces five of them, however what is escaped is split into offers and
however much of each the sink takes. The map keeps characters whole, so that whatever is written is well-formed and
reading it leaves nothing out, and it can be undone. `Html.escaping_exact` says so.

* `Sink.Willing` is what a sink has to be that everything can be written to, and `Sink.recording` says what it takes.
* `Html.escapeChars` is escaping on characters.
* `Html.unescape` puts characters back in place of the five entities.

The recording sink is there to say what a sink was given, for a sink need not show it. It does what the sink does
(`Sink.DoesLike`), so what is seen of the one is so of the other. That characters are kept whole is seen character by
character: the five that are replaced are single bytes, and those bytes are in no other character.
-/

namespace ThemedPages

/-! ## Writing in parts

What is written is given to a sink in one piece or in many, and the sink takes of each as much as it likes, in as many
offers as that needs. -/

namespace Sink

variable {σ τ : Type}

/-- Of each offer that is not empty the sink takes something, and never more than is offered. -/
def Willing (sink : Sink σ) : Prop :=
  ∀ (data : Bytes) (st : σ), data ≠ [] → ∃ n st', sink.write data st = (.ok n, st') ∧ 0 < n ∧ n ≤ data.length

/-- The sink, with a record of all that it has taken. -/
def recording (sink : Sink σ) : Sink (σ × Bytes) where
  write data st :=
    match sink.write data st.1 with
    | (.ok n, st') => (.ok n, st', st.2 ++ data.take n)
    | (.error reason, st') => (.error reason, st', st.2)
  room st := sink.room st.1

/-- Writes some bytes after others, up to the first that the sink does not take. -/
def writeEach (sink : Sink σ) : List Bytes → σ → Except String Unit × σ
  | [], st => (.ok (), st)
  | data :: rest, st =>
    match sink.writeAll data st with
    | (.ok (), st) => writeEach sink rest st
    | (.error reason, st) => (.error reason, st)

/-- A sink that takes something of each offer never fails. -/
theorem Willing.not_fails {sink : Sink σ} (h : sink.Willing) (reason : String) : ¬sink.Fails reason := by
  rintro ⟨data, st, st', hdata, hhalts⟩
  obtain ⟨n, st'', hwrite, hpos, -⟩ := h data st hdata
  cases hhalts with
  | failed hwrite' => cases hwrite.symm.trans hwrite'
  | stuck hwrite' =>
    cases hwrite.symm.trans hwrite'
    exact absurd hpos (Nat.lt_irrefl 0)

/-- What is written in parts is logged as a whole, where the sink never fails. -/
theorem Logs.writeEach {sink : Sink σ} {image : UInt8 → Bytes} {goes : Bytes → σ → Prop}
    (h : sink.Logs image goes fun _ _ _ => False) {log : Bytes} {st : σ} (hst : goes log st) (chunks : List Bytes) :
    ∃ st', sink.writeEach chunks st = (.ok (), st') ∧ goes (log ++ chunks.flatten.flatMap image) st' := by
  induction chunks generalizing log st with
  | nil => exact ⟨st, rfl, by simpa using hst⟩
  | cons data rest ih =>
    have hall := h.writeAll hst data
    rcases hdone : sink.writeAll data st with ⟨reason | ⟨⟩, st'⟩ <;> rw [hdone] at hall
    · obtain ⟨-, -, -, -, hfails⟩ := hall
      exact hfails.elim
    · obtain ⟨st'', hrest, hlog⟩ := ih hall
      rw [Sink.writeEach, hdone]
      refine ⟨st'', hrest, ?_⟩
      rwa [List.flatten_cons, List.flatMap_append, ← List.append_assoc]

/-! ### Records

A sink together with a record of what it took. -/

theorem Willing.recording {sink : Sink σ} (h : sink.Willing) : sink.recording.Willing := by
  intro data st hdata
  obtain ⟨n, st', hwrite, hn⟩ := h data st.1 hdata
  exact ⟨n, (st', st.2 ++ data.take n), by simp only [Sink.recording, hwrite], hn⟩

/-- What a willing sink takes is recorded, in order. -/
theorem Willing.records {sink : Sink σ} (h : sink.Willing) : sink.recording.Records Prod.snd where
  taken := by
    intro data st st' n hdata hwrite
    obtain ⟨m, st'', hwrite', -, hle⟩ := h data st.1 hdata
    simp only [Sink.recording, hwrite'] at hwrite
    cases hwrite
    exact ⟨hle, rfl⟩
  failed := by
    intro data st st' reason hdata hwrite
    obtain ⟨m, st'', hwrite', -⟩ := h data st.1 hdata
    simp only [Sink.recording, hwrite'] at hwrite
    cases hwrite

/-- All that is written to a sink that takes something of each offer is on record. -/
theorem Willing.logs {sink : Sink σ} (h : sink.Willing) :
    sink.recording.Logs (fun b => [b]) (fun log st => st.2 = log) fun _ _ _ => False where
  taken := h.records.logs.taken
  halts _ hdata hhalts := (h.recording.not_fails _ ⟨_, _, _, hdata, hhalts⟩).elim

/-- The first sink does what the second one does, on a part of the state. -/
def DoesLike (sink : Sink σ) (part : τ → σ) (sink' : Sink τ) : Prop :=
  ∀ data st, sink.write data (part st) = ((sink'.write data st).1, part (sink'.write data st).2)

theorem doesLike_recording (sink : Sink σ) : sink.DoesLike Prod.fst sink.recording := by
  intro data st
  simp only [recording]
  rcases sink.write data st.1 with ⟨reason | n, st'⟩ <;> rfl

section

variable {sink : Sink σ} {part : τ → σ} {sink' : Sink τ}

/-- So it is when something is written in as many offers as it takes. -/
theorem DoesLike.writeWithin (h : sink.DoesLike part sink') (fuel : Nat) (data : Bytes) (st : τ) :
    sink.writeWithin fuel data (part st) =
      ((sink'.writeWithin fuel data st).1, part (sink'.writeWithin fuel data st).2) := by
  induction fuel generalizing data st with
  | zero => cases data <;> rfl
  | succ fuel ih =>
    cases data with
    | nil => rfl
    | cons b rest =>
      have hwrite := h (b :: rest) st
      simp only [Sink.writeWithin, hwrite]
      rcases sink'.write (b :: rest) st with ⟨reason | (_ | n), st'⟩
      · rfl
      · rfl
      · exact ih _ st'

theorem DoesLike.escaping (h : sink.DoesLike part sink') : sink.escaping.DoesLike part sink'.escaping := by
  intro data st
  cases data with
  | nil => exact h [] st
  | cons b rest =>
    simp only [Sink.escaping]
    rcases Html.entity b with _ | entity
    · exact h _ st
    · have hentity := h.writeWithin entity.length entity st
      simp only [Sink.writeAll, hentity]
      rcases sink'.writeWithin entity.length entity st with ⟨reason | ⟨⟩, st'⟩ <;> rfl

theorem DoesLike.writeEach (h : sink.DoesLike part sink') (chunks : List Bytes) (st : τ) :
    sink.writeEach chunks (part st) = ((sink'.writeEach chunks st).1, part (sink'.writeEach chunks st).2) := by
  induction chunks generalizing st with
  | nil => rfl
  | cons data rest ih =>
    have hdata := h.writeWithin data.length data st
    simp only [Sink.writeEach, Sink.writeAll, hdata]
    rcases sink'.writeWithin data.length data st with ⟨reason | ⟨⟩, st'⟩
    · rfl
    · exact ih st'

end

/-- Whatever is written in parts to a sink that takes something of each offer is taken, escaped as a whole. -/
theorem Willing.escaping_writeEach {sink : Sink σ} (h : sink.Willing) (chunks : List Bytes) (st : σ) :
    ∃ st', sink.escaping.writeEach chunks st = (.ok (), st') ∧ ∀ log,
      sink.recording.escaping.writeEach chunks (st, log) = (.ok (), st', log ++ Html.escapeBytes chunks.flatten) := by
  have hrecord : ∀ log, ∃ st', sink.recording.escaping.writeEach chunks (st, log) =
      (.ok (), st', log ++ Html.escapeBytes chunks.flatten) := by
    intro log
    obtain ⟨⟨st', _⟩, hwrite, rfl⟩ := h.logs.escaping.writeEach (rfl : (st, log).2 = log) chunks
    exact ⟨st', hwrite⟩
  -- without a record the sink comes to the same state, whatever the record would be
  have hstate : ∀ log, sink.escaping.writeEach chunks st =
      ((sink.recording.escaping.writeEach chunks (st, log)).1,
        (sink.recording.escaping.writeEach chunks (st, log)).2.1) :=
    fun log => (doesLike_recording sink).escaping.writeEach chunks (st, log)
  obtain ⟨st', hst'⟩ := hrecord []
  have hwrite := hstate []
  rw [hst'] at hwrite
  refine ⟨st', hwrite, fun log => ?_⟩
  obtain ⟨st'', hst''⟩ := hrecord log
  have hsame := hstate log
  rw [hst'', hwrite] at hsame
  cases hsame
  exact hst''

end Sink

/-! ## Characters

On characters, escaping is the replacement of five of them. It is related to the one on bytes by going through a text
character by character. -/

namespace Html

/-- What is written for a character. -/
def escapeChar (c : Char) : List Char :=
  match c with
  | '"' => ['&', 'q', 'u', 'o', 't', ';']
  | '&' => ['&', 'a', 'm', 'p', ';']
  | '\x27' => ['&', '#', '3', '9', ';']
  | '<' => ['&', 'l', 't', ';']
  | '>' => ['&', 'g', 't', ';']
  | c => [c]

/-- The characters with every one that html gives a meaning replaced by its entity. -/
def escapeChars (cs : List Char) : List Char := cs.flatMap escapeChar

theorem escapeChars_append (cs cs' : List Char) : escapeChars (cs ++ cs') = escapeChars cs ++ escapeChars cs' :=
  List.flatMap_append

/-- What is escaped in two parts is escaped in one. -/
theorem escapeBytes_append (bs bs' : Bytes) : escapeBytes (bs ++ bs') = escapeBytes bs ++ escapeBytes bs' :=
  List.flatMap_append

/-- The characters that html gives a meaning. -/
def specials : List Char := ['"', '&', '\x27', '<', '>']

/-- Only the bytes of special characters have entities. -/
theorem entity_of_mem_encodeChar {c : Char} (hc : c ∉ specials) {b : UInt8} (hb : b ∈ Utf8.encodeChar c) :
    entity b = none := by
  have hascii : ∀ d ∈ specials, d.toNat < 0x80 := by simp [specials]
  have hne : ∀ d ∈ specials, b ≠ UInt8.ofNat d.toNat :=
    fun d hd => Utf8.ne_of_mem_encodeChar (hascii d hd) (fun hsame : c = d => hc (hsame ▸ hd)) hb
  have hquote : b ≠ 0x22 := hne '"' (by decide)
  have hand : b ≠ 0x26 := hne '&' (by decide)
  have hsingle : b ≠ 0x27 := hne '\x27' (by decide)
  have hless : b ≠ 0x3C := hne '<' (by decide)
  have hgreater : b ≠ 0x3E := hne '>' (by decide)
  rw [entity, if_neg hquote, if_neg hand, if_neg hsingle, if_neg hless, if_neg hgreater]

/-- Escaping the bytes of a character gives those of what is written for it. -/
theorem escapeBytes_encodeChar (c : Char) : escapeBytes (Utf8.encodeChar c) = Utf8.encode (escapeChar c) := by
  unfold escapeChar
  split
  · rfl
  · rfl
  · rfl
  · rfl
  · rfl
  · next hquote hand hsingle hless hgreater =>
    have hc : c ∉ specials := by
      simp only [specials, List.mem_cons, List.not_mem_nil, or_false, not_or]
      exact ⟨hquote, hand, hsingle, hless, hgreater⟩
    rw [escapeBytes, Sink.flatMap_escapeByte_of_plain fun b hb => entity_of_mem_encodeChar hc hb, Utf8.encode,
      List.flatMap_singleton]

/-- **Escaping bytes is escaping characters.** -/
theorem escapeBytes_encode (cs : List Char) : escapeBytes (Utf8.encode cs) = Utf8.encode (escapeChars cs) := by
  induction cs with
  | nil => rfl
  | cons c cs ih =>
    rw [escapeChars, List.flatMap_cons, Utf8.encode_append, Utf8.encode, List.flatMap_cons, escapeBytes_append,
      escapeBytes_encodeChar, ← escapeChars, ← ih]
    rfl

/-- Escaping a text is escaping its characters. -/
theorem escape_eq (s : String) : escape s = String.ofList (escapeChars s.toList) := by
  rw [escape, Utf8.bytes, escapeBytes_encode, Utf8.lossy, Utf8.decode_encode]

/-! ## Well-formed bytes

What is shown is made of texts, each escaped or not, and texts are well-formed. -/

/-- Nothing is lost of the bytes of an escaped text when they are read. -/
theorem bytes_escape (s : String) : Utf8.bytes (escape s) = escapeBytes (Utf8.bytes s) := by
  rw [escape_eq, Utf8.bytes, String.toList_ofList, Utf8.bytes, escapeBytes_encode]

end Html

/-- The parts of a page are well-formed, and so is the page. -/
theorem Piece.exists_bytes_eq (pieces : List Piece) : ∃ s, pieces.flatMap Piece.bytes = Utf8.bytes s := by
  induction pieces with
  | nil => exact ⟨"", rfl⟩
  | cons piece rest ih =>
    obtain ⟨s, hs⟩ := ih
    rw [List.flatMap_cons, hs]
    cases piece with
    | markup text => exact ⟨text ++ s, (Utf8.bytes_append text s).symm⟩
    | plain text =>
      refine ⟨Html.escape text ++ s, ?_⟩
      rw [Utf8.bytes_append, Html.bytes_escape]
      rfl

/-- What is shown can be read as a text without anything lost. -/
theorem Piece.bytes_lossy (pieces : List Piece) :
    Utf8.bytes (Utf8.lossy (pieces.flatMap Piece.bytes)) = pieces.flatMap Piece.bytes := by
  obtain ⟨s, hs⟩ := exists_bytes_eq pieces
  rw [hs, Utf8.lossy_bytes]

/-! ## Taking entities back

An ampersand in an escaped text begins an entity, and each of the five is put back as the character it stands for. All
other characters are as they were. -/

namespace Html

/-- The characters with the five entities replaced by what they stand for, from left to right. -/
def unescapeChars : List Char → List Char
  | '&' :: 'q' :: 'u' :: 'o' :: 't' :: ';' :: rest => '"' :: unescapeChars rest
  | '&' :: 'a' :: 'm' :: 'p' :: ';' :: rest => '&' :: unescapeChars rest
  | '&' :: '#' :: '3' :: '9' :: ';' :: rest => '\x27' :: unescapeChars rest
  | '&' :: 'l' :: 't' :: ';' :: rest => '<' :: unescapeChars rest
  | '&' :: 'g' :: 't' :: ';' :: rest => '>' :: unescapeChars rest
  | c :: rest => c :: unescapeChars rest
  | [] => []

/-- The text with the five entities replaced by what they stand for, from left to right. -/
def unescape (s : String) : String := String.ofList (unescapeChars s.toList)

/-- What is written for a character is read as that character, whatever comes after it. -/
theorem unescapeChars_escapeChar (c : Char) (rest : List Char) :
    unescapeChars (escapeChar c ++ rest) = c :: unescapeChars rest := by
  unfold escapeChar
  split
  · rfl
  · rfl
  · rfl
  · rfl
  · rfl
  · next hquote hand hsingle hless hgreater =>
    -- no entity begins here, for there is no ampersand
    rw [List.singleton_append, unescapeChars] <;> exact fun _ h => absurd h hand

theorem unescapeChars_escapeChars (cs : List Char) : unescapeChars (escapeChars cs) = cs := by
  induction cs with
  | nil => rfl
  | cons c cs ih => rw [escapeChars, List.flatMap_cons, unescapeChars_escapeChar, ← escapeChars, ih]

theorem unescape_escape (s : String) : unescape (escape s) = s := by
  rw [unescape, escape_eq, String.toList_ofList, unescapeChars_escapeChars, String.ofList_toList]

/-- Whatever is escaped into a sink that takes something of each offer and not more than is offered, in however many
parts it is written and wherever these are split, all of it is taken, with each byte that has an entity replaced by it
and every other byte as it is.

So two texts are escaped one after the other as they are together. What is escaped of well-formed bytes is well-formed:
reading an escaped text, whatever is shown as html, or a page that is rendered, puts nothing in place of any bytes. And
taking the entities back gives the text that was escaped, whatever it was. -/
theorem escaping_exact :
    (∀ {σ : Type} (sink : Sink σ), sink.Willing → ∀ (chunks : List Bytes) (st : σ),
      ∃ st', sink.escaping.writeEach chunks st = (.ok (), st') ∧ ∀ log,
        sink.recording.escaping.writeEach chunks (st, log) =
          (.ok (), st', log ++ chunks.flatten.flatMap fun b => (entity b).getD [b])) ∧
    (∀ s t, escape (s ++ t) = escape s ++ escape t) ∧
    (∀ bs s, Utf8.read? bs = some s → Utf8.read? (escapeBytes bs) = some (escape s)) ∧
    (∀ s, Utf8.bytes (escape s) = escapeBytes (Utf8.bytes s)) ∧
    (∀ pieces : List Piece, Utf8.bytes (Utf8.lossy (pieces.flatMap Piece.bytes)) = pieces.flatMap Piece.bytes) ∧
    (∀ (site : Site) request path context page, (site.keep request path context).page = .ok page →
      Utf8.bytes page.html = (site.keep request path context).sink.bytes) ∧
    ∀ s, unescape (escape s) = s := by
  refine ⟨fun sink h chunks st => h.escaping_writeEach chunks st, fun s t => ?_, fun bs s h => ?_, bytes_escape,
    Piece.bytes_lossy, fun site request path context page h => ?_, unescape_escape⟩
  · rw [escape_eq, escape_eq, escape_eq, String.toList_append, escapeChars_append, String.ofList_append]
  · rw [Utf8.eq_bytes_of_read? h, ← bytes_escape, Utf8.read?_bytes]
  · rw [Delivery.page] at h
    -- only a page that was rendered has a text
    rcases houtcome : (site.keep request path context).outcome with stop | ⟨⟩ <;> rw [houtcome] at h
    · cases h
    · obtain rfl := Except.ok.inj h
      rw [Page.ofHtml, site.bytes_keep, Transcript.bytes, Piece.bytes_lossy]

/-- The bytes of a character can be in two parts of what is written. -/
theorem escaping_exact_split :
    let sink := Sink.bounded none (some 1) "full"
    let chunks : List Bytes := [[0x3C, 0xC3], [], [0xA9, 0x26]]
    let request : Request := ⟨none, .empty, Helpers.standard⟩
    let page := Site.faulty.keep request "page.html" (.ofPairs [("x", .string "<é>"), ("y", .safe "&amp;")])
    sink.Willing ∧
    (∃ kept, sink.escaping.writeEach chunks .nothing = (.ok (), kept) ∧ ∀ log,
      sink.recording.escaping.writeEach chunks (.nothing, log) = (.ok (), kept, log ++ Utf8.bytes "&lt;é&amp;")) ∧
    Utf8.read? chunks.flatten = some "<é&" ∧ Utf8.read? (escapeBytes chunks.flatten) = some (escape "<é&") ∧
    page.page = .ok (.ofHtml "a&lt;é&gt;&lt;é&gt;&amp;") ∧
    Utf8.bytes "a&lt;é&gt;&lt;é&gt;&amp;" = page.sink.bytes ∧ unescape (escape "&amp;lt;") = "&amp;lt;" := by
  intro sink chunks request page
  have hsink : sink.Willing := by
    intro data kept hdata
    obtain ⟨n, hn, -, hwrite⟩ | ⟨hfull, -⟩ := Sink.bounded_write none (some 1) "full" hdata kept
    · exact ⟨n + 1, _, hwrite, Nat.succ_pos n, hn⟩
    · rcases hfull with ⟨_, ⟨⟩, -⟩ | hchunk
      exact absurd hchunk (by decide)
  have hread : Utf8.read? chunks.flatten = some "<é&" := by decide +kernel
  have hpage : page.page = .ok (.ofHtml "a&lt;é&gt;&lt;é&gt;&amp;") := by decide +kernel
  obtain ⟨hwrite, -, hvalid, -, -, hkeep, hunescape⟩ := escaping_exact
  exact ⟨hsink, hwrite sink hsink chunks .nothing, hread, hvalid _ _ hread, hpage, hkeep _ _ _ _ _ hpage,
    hunescape _⟩

end Html

end ThemedPages
