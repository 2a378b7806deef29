import Mathlib.Data.List.TakeWhile
import ThemedPages.Proofs.Tokens

/-!
# Mending bytes

Bytes that are read as a text and written again are *mended*: each part of them that is no character has become a
U+FFFD, and the rest is as it was. Mending goes on from one part to the next wherever the next one does not begin in
the midst of a character (`Utf8.mend_append`). What is ASCII is left as it is, and nothing that is ASCII comes out of
anything else (`Utf8.mend_cons_of_ascii`, `Utf8.mem_mend`), so that runs of bytes end at the same places after mending.

* `Utf8.State.Sound` says that whatever a character of several bytes goes on with, it is one beyond ASCII.
* `Utf8.mend_eq_self_iff` says which bytes need no mending, and `Utf8.exists_split_of_suffix` where these can be cut.

Bytes are decoded by a machine with a state, the character of several bytes that it is within, if any. What is known of
it is said of one step first (`Utf8.State.Sound.step`) and then along the bytes. A state that is sound can not end in an
ASCII character, whatever bytes come, and a byte that does not belong makes the machine begin anew.
-/

namespace ThemedPages

namespace Utf8

/-! ## Characters of several bytes

The first byte of a character says how many are to come and in which range the next one is. The rest of the numbers is
settled by these ranges. -/

/-- The byte is in ASCII. -/
def isAscii (b : UInt8) : Bool := b < 0x80

theorem isAscii_of_le {b : UInt8} (h : 0x80 ≤ b.toNat) : isAscii b = false :=
  decide_eq_false (UInt8.not_lt.mpr (UInt8.le_iff_toNat_le.mpr h))

/-- The byte can only go on with a character. -/
def isTail (b : UInt8) : Bool := 0x80 ≤ b && b ≤ 0xBF

/-- Whatever a character with these bits goes on with for so many bytes, it is one beyond ASCII. -/
def Fits : Nat → Nat → Prop
  | 0, n => 0x80 ≤ n ∧ (n < 0xD800 ∨ 0xDFFF < n ∧ n < 0x110000)
  | more + 1, bits => ∀ k < 0x40, Fits more (bits * 0x40 + k)

/-- The reader is between characters, or inside of one that will be beyond ASCII. -/
def State.Sound : State → Prop
  | .idle => True
  | .within bits more lo hi => 0x80 ≤ lo.toNat ∧ hi.toNat ≤ 0xBF ∧
    ∀ k < 0x40, lo.toNat ≤ 0x80 + k → 0x80 + k ≤ hi.toNat → Fits more (bits * 0x40 + k)

theorem State.sound_idle : idle.Sound := trivial

/-- A first byte leads to a sound state. -/
theorem sound_start (b : UInt8) : (start b).2.Sound := by
  rw [← UInt8.ofNat_toNat (x := b), start_ofNat b.toNat_lt]
  have hb : b.toNat < 0x100 := b.toNat_lt
  generalize b.toNat = n at hb
  split_ifs
  all_goals try trivial
  all_goals
    refine ⟨by decide, by decide, fun k hk hlo hhi => ?_⟩
    simp only [UInt8.reduceToNat] at hlo hhi
    simp only [Fits]
    intros
    omega

theorem toNat_ofNat {n : Nat} (h : n.isValidChar) : (Char.ofNat n).toNat = n := by
  rw [Char.ofNat, dif_pos h]
  rfl

/-- The characters that the first byte of a character completes: itself, or one beyond ASCII. -/
theorem mem_start {b : UInt8} {c : Char} (h : c ∈ (start b).1) :
    isAscii b = true ∧ c.toNat = b.toNat ∨ 0x80 ≤ c.toNat := by
  have hreplacement : 0x80 ≤ replacement.toNat := by decide
  by_cases hb : b < 0x80
  · have hstart : start b = ([Char.ofNat b.toNat], .idle) := if_pos hb
    have hlt : b.toNat < 0x80 := UInt8.lt_iff_toNat_lt.mp hb
    rw [hstart] at h
    exact .inl ⟨decide_eq_true hb, by rw [List.mem_singleton.mp h, toNat_ofNat (.inl (by omega))]⟩
  · refine .inr ?_
    unfold start at h
    rw [if_neg hb] at h
    split_ifs at h <;> first | exact absurd h List.not_mem_nil | exact List.mem_singleton.mp h ▸ hreplacement

/-- What a byte adds to a character that it goes on with. -/
theorem State.Sound.fits {bits more : Nat} {lo hi b : UInt8} (h : (within bits more lo hi).Sound)
    (hb : lo ≤ b ∧ b ≤ hi) : Fits more (bits * 0x40 + (b.toNat - 0x80)) := by
  obtain ⟨hlo, hhi, hfits⟩ := h
  have hmin := UInt8.le_iff_toNat_le.mp hb.1
  have hmax := UInt8.le_iff_toNat_le.mp hb.2
  exact hfits (b.toNat - 0x80) (by omega) (by omega) (by omega)

/-- **One step keeps the state sound,** and whatever character it comes to is the ASCII byte itself or is beyond
ASCII. -/
theorem State.Sound.step {st : State} (h : st.Sound) (b : UInt8) :
    (∀ c ∈ (step st b).1, isAscii b = true ∧ c.toNat = b.toNat ∨ 0x80 ≤ c.toNat) ∧ (step st b).2.Sound := by
  cases st with
  | idle => exact ⟨fun c hc => mem_start hc, sound_start b⟩
  | within bits more lo hi =>
    simp only [Utf8.step]
    split_ifs with hrange
    · have hnext := h.fits hrange
      cases more with
      | zero =>
        refine ⟨fun c hc => .inr ?_, trivial⟩
        rw [List.mem_singleton.mp hc, toNat_ofNat hnext.2]
        exact hnext.1
      | succ more =>
        exact ⟨fun c hc => absurd hc List.not_mem_nil, Nat.le_refl _, Nat.le_refl _, fun k hk _ _ => hnext k hk⟩
    · refine ⟨fun c hc => ?_, sound_start b⟩
      rcases List.mem_cons.mp hc with rfl | hc
      · exact .inr (by decide)
      · exact mem_start hc

theorem decodeFrom_cons (st : State) (b : UInt8) (rest : Bytes) :
    decodeFrom st (b :: rest) = (step st b).1 ++ decodeFrom (step st b).2 rest := by
  cases st <;> rfl

/-- A character that is read from some bytes is one of those that are in ASCII, or one beyond it. -/
theorem State.Sound.mem_decodeFrom {bs : Bytes} {st : State} (hst : st.Sound) {c : Char} (h : c ∈ decodeFrom st bs) :
    (∃ b ∈ bs, isAscii b = true ∧ c.toNat = b.toNat) ∨ 0x80 ≤ c.toNat := by
  induction bs generalizing st with
  | nil =>
    cases st with
    | idle => exact absurd h List.not_mem_nil
    | within _ _ _ _ =>
      rw [List.mem_singleton.mp h]
      exact .inr (by decide)
  | cons b rest ih =>
    obtain ⟨hchars, hnext⟩ := hst.step b
    rw [decodeFrom_cons] at h
    rcases List.mem_append.mp h with h | h
    · exact (hchars c h).imp_left fun hb => ⟨b, List.mem_cons_self, hb⟩
    · exact (ih hnext h).imp_left fun ⟨x, hx, hc⟩ => ⟨x, List.mem_cons_of_mem _ hx, hc⟩

/-- Inside of a character there is one to come, and not one of ASCII. -/
theorem exists_decodeFrom_within {bits more : Nat} {lo hi : UInt8} (h : (State.within bits more lo hi).Sound)
    (bs : Bytes) : ∃ c cs, decodeFrom (.within bits more lo hi) bs = c :: cs ∧ 0x80 ≤ c.toNat := by
  induction bs generalizing bits more lo hi with
  | nil => exact ⟨_, _, rfl, by decide⟩
  | cons b rest ih =>
    have hnext := (h.step b).2
    rw [decodeFrom_cons]
    simp only [step] at hnext ⊢
    split_ifs with hrange
    · have hfits := h.fits hrange
      rw [if_pos hrange] at hnext
      cases more with
      | zero => exact ⟨_, _, rfl, by rw [toNat_ofNat hfits.2]; exact hfits.1⟩
      | succ more => exact ih hnext
    · exact ⟨_, _, rfl, by decide⟩

theorem exists_decode {b : UInt8} (hb : isAscii b = false) (rest : Bytes) :
    ∃ c cs, decode (b :: rest) = c :: cs ∧ 0x80 ≤ c.toNat := by
  have hsound := sound_start b
  have hstart : (start b).1 = [replacement] ∨ (start b).1 = [] ∧ (start b).2 ≠ .idle := by
    have hlong : ¬b < 0x80 := of_decide_eq_false hb
    unfold start
    rw [if_neg hlong]
    split_ifs <;> simp
  rw [decode, decodeFrom_cons]
  simp only [step]
  rcases hstart with hchars | ⟨hchars, hwithin⟩
  · exact ⟨replacement, _, by rw [hchars]; rfl, by decide⟩
  · rw [hchars, List.nil_append]
    cases hstate : (start b).2 with
    | idle => exact absurd hstate hwithin
    | within bits more lo hi => exact exists_decodeFrom_within (hstate ▸ hsound) rest

/-- What comes before a byte that no character goes on with is read on its own. -/
theorem State.Sound.decodeFrom_append {st : State} (hst : st.Sound) (bs : Bytes) {rest : Bytes} (h : Stops isTail rest) :
    decodeFrom st (bs ++ rest) = decodeFrom st bs ++ decode rest := by
  induction bs generalizing st with
  | nil =>
    cases st with
    | idle => rfl
    | within bits more lo hi =>
      cases rest with
      | nil => rfl
      | cons b rest =>
        -- no byte that begins a character can continue one, so the character that was begun ends here
        have hrange : ¬(lo ≤ b ∧ b ≤ hi) := by
          rintro ⟨hmin, hmax⟩
          have htail := h b rfl
          have hlow := Nat.le_trans hst.1 (UInt8.le_iff_toNat_le.mp hmin)
          have hhigh := Nat.le_trans (UInt8.le_iff_toNat_le.mp hmax) hst.2.1
          simp only [isTail, Bool.and_eq_false_iff, decide_eq_false_iff_not, UInt8.le_iff_toNat_le] at htail
          exact htail.elim (absurd hlow) (absurd hhigh)
        rw [List.nil_append, decodeFrom_cons]
        simp only [Utf8.step, if_neg hrange]
        rfl
  | cons b bs ih =>
    rw [List.cons_append, decodeFrom_cons, decodeFrom_cons, ih (hst.step b).2, List.append_assoc]

/-- Two parts can be decoded by themselves if the second does not begin in the midst of a character. -/
theorem decode_append (bs : Bytes) {rest : Bytes} (h : Stops isTail rest) :
    decode (bs ++ rest) = decode bs ++ decode rest :=
  State.sound_idle.decodeFrom_append bs h

/-! ## Mended bytes

Mending is decoding and encoding. It is the same bytes where they are ASCII, and it has other bytes beyond ASCII where
they are not. -/

/-- The bytes with a U+FFFD in place of each part that is no character. -/
def mend (bs : Bytes) : Bytes := encode (decode bs)

/-- The bytes of the text that some bytes are read as are these bytes, mended. -/
theorem bytes_lossy (bs : Bytes) : bytes (lossy bs) = mend bs := by
  rw [bytes, lossy, String.toList_ofList, mend]

/-- Bytes and what they are mended to are the same text. -/
theorem lossy_mend (bs : Bytes) : lossy (mend bs) = lossy bs := by
  rw [lossy, mend, decode_encode, lossy]

/-- Parts can be mended by themselves under the same condition. -/
theorem mend_append (bs : Bytes) {rest : Bytes} (h : Stops isTail rest) :
    mend (bs ++ rest) = mend bs ++ mend rest := by
  rw [mend, decode_append bs h, encode_append, mend, mend]

theorem isTail_of_isAscii {b : UInt8} (h : isAscii b = true) : isTail b = false := by
  have hlt : ¬0x80 ≤ b := UInt8.not_le.mpr (of_decide_eq_true h)
  rw [isTail, decide_eq_false hlt, Bool.false_and]

/-- What is ASCII is left as it is. -/
theorem mend_cons_of_ascii {b : UInt8} (h : isAscii b = true) (rest : Bytes) : mend (b :: rest) = b :: mend rest := by
  have hlt : b.toNat < 0x80 := UInt8.lt_iff_toNat_lt.mp (of_decide_eq_true h)
  have hencode : encodeChar (Char.ofNat b.toNat) = [b] := by
    unfold encodeChar
    dsimp only
    rw [toNat_ofNat (.inl (by omega)), if_pos hlt, UInt8.ofNat_toNat]
  have hstart : start b = ([Char.ofNat b.toNat], .idle) := if_pos (of_decide_eq_true h)
  rw [mend, decode, decodeFrom_cons]
  simp only [step, hstart]
  rw [encode_append, encode, List.flatMap_singleton, hencode]
  rfl

theorem mend_append_of_ascii {run : Bytes} (h : ∀ b ∈ run, isAscii b = true) (rest : Bytes) :
    mend (run ++ rest) = run ++ mend rest := by
  induction run with
  | nil => rfl
  | cons b run ih =>
    rw [List.cons_append, mend_cons_of_ascii (h b List.mem_cons_self), ih fun x hx => h x (List.mem_cons_of_mem _ hx)]
    rfl

/-- A byte of a character is beyond ASCII, or it is all of the character. -/
theorem isAscii_of_mem_encodeChar {c : Char} {b : UInt8} (h : b ∈ encodeChar c) :
    isAscii b = false ∨ b.toNat = c.toNat := by
  rcases mem_encodeChar h with ⟨hlt, rfl⟩ | ⟨-, hle⟩
  · exact .inr (toNat_ofNat_of_lt (by omega))
  · exact .inl (isAscii_of_le hle)

/-- What is ASCII was there before. -/
theorem mem_mend {bs : Bytes} {b : UInt8} (h : b ∈ mend bs) : b ∈ bs ∨ isAscii b = false := by
  obtain ⟨c, hc, hb⟩ := List.mem_flatMap.mp h
  rcases isAscii_of_mem_encodeChar hb with hlong | hcode
  · exact .inr hlong
  · rcases State.sound_idle.mem_decodeFrom hc with ⟨x, hx, -, hsame⟩ | hlong
    · obtain rfl : b = x := UInt8.toNat_inj.mp (hcode.trans hsame)
      exact .inl hx
    · exact .inr (isAscii_of_le (hcode ▸ hlong))

/-- Mending leaves the first byte as it is, or leaves it outside of ASCII. -/
theorem mend_cons (b : UInt8) (rest : Bytes) :
    isAscii b = true ∧ mend (b :: rest) = b :: mend rest ∨
      isAscii b = false ∧ ∃ x more, mend (b :: rest) = x :: more ∧ isAscii x = false := by
  rcases hb : isAscii b with _ | _
  · obtain ⟨c, cs, hdecode, hlong⟩ := exists_decode hb rest
    obtain ⟨x, xs, hx⟩ := exists_encodeChar c
    refine .inr ⟨rfl, x, xs ++ encode cs, ?_, ?_⟩
    · rw [mend, hdecode, encode, List.flatMap_cons, hx]
      rfl
    · have hmem : x ∈ encodeChar c := hx ▸ List.mem_cons_self
      rcases mem_encodeChar hmem with ⟨hlt, -⟩ | ⟨-, hle⟩
      · exact absurd hlong (Nat.not_le_of_lt hlt)
      · exact isAscii_of_le hle
  · exact .inl ⟨rfl, mend_cons_of_ascii hb rest⟩

/-- Nothing but nothing is mended to nothing. -/
theorem mend_eq_nil {s : Bytes} : mend s = [] ↔ s = [] := by
  constructor
  · intro h
    cases s with
    | nil => rfl
    | cons b rest =>
      rcases mend_cons b rest with ⟨-, hb⟩ | ⟨-, x, more, hx, -⟩
      · exact absurd (hb.symm.trans h) (List.cons_ne_nil _ _)
      · exact absurd (hx.symm.trans h) (List.cons_ne_nil _ _)
  · rintro rfl
    rfl

/-- ASCII bytes are at the front of mended ones if they were there before. -/
theorem prefix_mend {word : Bytes} (hword : ∀ b ∈ word, isAscii b = true) {s : Bytes} :
    word <+: mend s ↔ word <+: s := by
  constructor
  · intro h
    induction word generalizing s with
    | nil => exact List.nil_prefix
    | cons c word ih =>
      cases s with
      | nil => exact h
      | cons b rest =>
        rcases mend_cons b rest with ⟨-, hb⟩ | ⟨-, x, more, hx, hlong⟩
        · rw [hb, List.cons_prefix_cons] at h
          exact List.cons_prefix_cons.mpr ⟨h.1, ih (fun y hy => hword y (List.mem_cons_of_mem _ hy)) h.2⟩
        · rw [hx, List.cons_prefix_cons] at h
          have hc := hword c List.mem_cons_self
          rw [h.1, hlong] at hc
          cases hc
  · rintro ⟨rest, rfl⟩
    exact ⟨mend rest, (mend_append_of_ascii hword rest).symm⟩

/-! ### Runs

A uniform class takes all bytes beyond ASCII or none, so whether a byte is of it is known before mending. -/

/-- The class does not tell one byte outside of ASCII from another. -/
def Uniform (cls : UInt8 → Bool) : Prop := ∀ b, isAscii b = false → cls b = cls 0x80

theorem Uniform.isAscii {cls : UInt8 → Bool} (h : Uniform cls) {b : UInt8} (hb : cls b ≠ cls 0x80) :
    isAscii b = true := by
  by_contra hascii
  exact hb (h b (Bool.eq_false_iff.mpr hascii))

/-- A class of ASCII does not either. -/
theorem Uniform.of_ascii {cls : UInt8 → Bool} (h : ∀ b, cls b = true → Utf8.isAscii b = true) : Uniform cls := by
  have hout : ∀ b, Utf8.isAscii b = false → cls b = false := fun b hb =>
    Bool.eq_false_iff.mpr fun hcls => absurd (hb.symm.trans (h b hcls)) (by decide)
  intro b hb
  rw [hout b hb, hout 0x80 rfl]

theorem mend_of_ascii {run : Bytes} (h : ∀ b ∈ run, isAscii b = true) : mend run = run := by
  have hmend := mend_append_of_ascii h []
  rwa [List.append_nil, show mend [] = [] from rfl, List.append_nil] at hmend

theorem stops_mend {cls : UInt8 → Bool} (hcls : Uniform cls) {s : Bytes} (h : Stops cls s) : Stops cls (mend s) := by
  cases s with
  | nil => exact h
  | cons b rest =>
    have hb := h b rfl
    rcases mend_cons b rest with ⟨-, hsame⟩ | ⟨hlong, x, more, hx, hlong'⟩
    · rw [hsame]
      exact stops_cons hb _
    · rw [hx]
      exact stops_cons (by rw [hcls x hlong', ← hcls b hlong, hb]) _

/-- A run of a class ends at the same place after mending. -/
theorem span_mend {cls : UInt8 → Bool} (hcls : Uniform cls) (s : Bytes) :
    (mend s).takeWhile cls = mend (s.takeWhile cls) ∧ (mend s).dropWhile cls = mend (s.dropWhile cls) := by
  have hrun : ∀ b ∈ s.takeWhile cls, cls b = true := fun b hb => List.mem_takeWhile_imp hb
  have hrest := stops_dropWhile cls s
  have hsplit : s.takeWhile cls ++ s.dropWhile cls = s := List.takeWhile_append_dropWhile
  generalize s.takeWhile cls = run, s.dropWhile cls = rest at hrun hrest hsplit
  subst hsplit
  rcases hlong : cls 0x80 with _ | _
  · -- the run is all of ASCII
    have hascii : ∀ b ∈ run, isAscii b = true := fun b hb => hcls.isAscii (by rw [hlong, hrun b hb]; decide)
    rw [mend_append_of_ascii hascii, mend_of_ascii hascii]
    exact takeWhile_append_of_stops hrun (stops_mend hcls hrest)
  · -- what comes after the run begins with a byte of ASCII
    have htail : Stops isTail rest := fun b hb =>
      isTail_of_isAscii (hcls.isAscii (by rw [hlong, hrest b hb]; decide))
    rw [mend_append run htail]
    refine takeWhile_append_of_stops (fun b hb => ?_) (stops_mend hcls hrest)
    rcases mem_mend hb with hb | hb
    · exact hrun b hb
    · rw [hcls b hb, hlong]

/-- All bytes are built from bytes of ASCII and from runs of others that none of these comes after. -/
theorem inductionOnRuns {P : Bytes → Prop} (nil : P [])
    (ascii : ∀ b rest, isAscii b = true → P rest → P (b :: rest))
    (run : ∀ run rest, (∀ b ∈ run, isAscii b = false) → Stops isTail rest → P rest → P (run ++ rest)) :
    ∀ s, P s
  | [] => nil
  | b :: rest => by
    rcases hb : isAscii b with _ | _
    · have hrun : ∀ x ∈ b :: rest.takeWhile (!isAscii ·), isAscii x = false := by
        refine List.forall_mem_cons.mpr ⟨hb, fun x hx => ?_⟩
        have hlong := List.mem_takeWhile_imp hx
        exact (Bool.not_eq_true' _).mp hlong
      have hrest : Stops isTail (rest.dropWhile (!isAscii ·)) := fun x hx =>
        isTail_of_isAscii ((Bool.not_eq_false' _).mp (stops_dropWhile _ rest x hx))
      have hshorter : (rest.dropWhile (!isAscii ·)).length ≤ rest.length := (List.dropWhile_suffix _).length_le
      have hP := inductionOnRuns nil ascii run (rest.dropWhile (!isAscii ·))
      have hwhole := run _ _ hrun hrest hP
      rwa [List.cons_append, List.takeWhile_append_dropWhile] at hwhole
    · exact ascii b rest hb (inductionOnRuns nil ascii run rest)
termination_by s => s.length

/-! ## Bytes that need no mending

These are the bytes of texts. They can be cut into texts where no byte is in the midst of a character. -/

theorem mend_bytes (s : String) : mend (bytes s) = bytes s := by
  rw [mend, bytes, decode_encode]

/-- The bytes of a text are read as that text. -/
theorem read?_bytes (s : String) : read? (bytes s) = some s := by
  rw [read?, lossy_bytes, bytes, decode_encode, if_pos rfl]

/-- Bytes that can be read are the bytes of the text that they are read as. -/
theorem eq_bytes_of_read? {bs : Bytes} {s : String} (h : read? bs = some s) : bs = bytes s := by
  unfold read? at h
  split_ifs at h with hbs
  cases h
  rw [lossy, bytes, String.toList_ofList, hbs]

/-- The bytes that need no mending are those of texts. -/
theorem mend_eq_self_iff {bs : Bytes} : mend bs = bs ↔ ∃ s, bs = bytes s := by
  constructor
  · intro h
    exact ⟨lossy bs, by rw [bytes_lossy, h]⟩
  · rintro ⟨s, rfl⟩
    exact mend_bytes s

/-- No text begins in the midst of a character. -/
theorem stops_isTail {bs : Bytes} (h : mend bs = bs) : Stops isTail bs := by
  cases bs with
  | nil => exact stops_nil _
  | cons b rest =>
    refine stops_cons (Bool.eq_false_iff.mpr fun htail => ?_) rest
    have hstart : start b = ([replacement], .idle) := by grind [isTail, start]
    rw [mend, decode, decodeFrom_cons] at h
    simp only [step, hstart] at h
    obtain rfl : 0xEF = b := (List.cons.inj h).1
    cases htail

/-- Where the rest of a text is a text of its own, it begins with one of the characters. -/
theorem exists_split_of_suffix {text : String} {rest : Bytes} (hrest : mend rest = rest) (h : rest <:+ bytes text) :
    ∃ before after : String, text = before ++ after ∧ rest = bytes after := by
  obtain ⟨lead, hlead⟩ := h
  have hmend : mend (lead ++ rest) = lead ++ rest := by rw [hlead, mend_bytes]
  rw [mend_append lead (stops_isTail hrest), hrest] at hmend
  obtain ⟨before, rfl⟩ := mend_eq_self_iff.mp (List.append_cancel_right hmend)
  obtain ⟨after, rfl⟩ := mend_eq_self_iff.mp hrest
  refine ⟨before, after, ?_, rfl⟩
  have hsame := congrArg lossy hlead
  rwa [← bytes_append, lossy_bytes, lossy_bytes, eq_comm] at hsame

end Utf8

end ThemedPages
