import Mathlib.Tactic.Common
import ThemedPages.Text.Utf8

/-!
# Reading what was written

Reading the bytes of a text gives the text: `Utf8.lossy_bytes`. The reader goes byte by byte, and each of the bytes of a
character is in the range that the bytes before it call for.
-/

namespace ThemedPages.Utf8

/-! ## Bytes by their numbers

Ranges of bytes are ranges of numbers, and so the cases of a first byte are cases of a number. -/

/-- A number that fits a byte is the number of that byte. -/
theorem toNat_ofNat_of_lt {k : Nat} (h : k < 0x100) : (UInt8.ofNat k).toNat = k := by
  rw [UInt8.toNat_ofNat']
  exact Nat.mod_eq_of_lt h

theorem start_ofNat {k : Nat} (h : k < 0x100) : start (UInt8.ofNat k) =
    if k < 0x80 then ([Char.ofNat k], .idle)
    else if k < 0xC2 then ([replacement], .idle)
    else if k < 0xE0 then ([], .within (k - 0xC0) 0 0x80 0xBF)
    else if k = 0xE0 then ([], .within 0 1 0xA0 0xBF)
    else if k = 0xED then ([], .within 0xD 1 0x80 0x9F)
    else if k < 0xF0 then ([], .within (k - 0xE0) 1 0x80 0xBF)
    else if k = 0xF0 then ([], .within 0 2 0x90 0xBF)
    else if k < 0xF4 then ([], .within (k - 0xF0) 2 0x80 0xBF)
    else if k = 0xF4 then ([], .within 4 2 0x80 0x8F)
    else ([replacement], .idle) := by
  simp only [start, UInt8.lt_iff_toNat_lt, ← UInt8.toNat_inj, toNat_ofNat_of_lt h]
  rfl

/-- A byte is in a range if its number is. -/
theorem mem_range {lo hi : UInt8} {k : Nat} (h : k < 0x100) (hlo : lo.toNat ≤ k) (hhi : k ≤ hi.toNat) :
    lo ≤ UInt8.ofNat k ∧ UInt8.ofNat k ≤ hi := by
  rw [UInt8.le_iff_toNat_le, UInt8.le_iff_toNat_le, toNat_ofNat_of_lt h]
  exact ⟨hlo, hhi⟩

/-- Reading a byte that goes on with a character, by the six bits that it brings. -/
theorem decodeFrom_within_more {bits more k : Nat} {lo hi : UInt8} (hk : k < 0x40) (hlo : lo.toNat ≤ 0x80 + k)
    (hhi : 0x80 + k ≤ hi.toNat) (rest : Bytes) :
    decodeFrom (.within bits (more + 1) lo hi) (UInt8.ofNat (0x80 + k) :: rest) =
      decodeFrom (.within (bits * 0x40 + k) more 0x80 0xBF) rest := by
  rw [decodeFrom]
  simp only [step, if_pos (mem_range (by omega) hlo hhi), toNat_ofNat_of_lt (by omega : 0x80 + k < 0x100),
    Nat.add_sub_cancel_left, List.nil_append]

/-- Reading the last byte of a character. -/
theorem decodeFrom_within_last {bits k : Nat} {lo hi : UInt8} (hk : k < 0x40) (hlo : lo.toNat ≤ 0x80 + k)
    (hhi : 0x80 + k ≤ hi.toNat) (rest : Bytes) :
    decodeFrom (.within bits 0 lo hi) (UInt8.ofNat (0x80 + k) :: rest) =
      Char.ofNat (bits * 0x40 + k) :: decodeFrom .idle rest := by
  rw [decodeFrom]
  simp only [step, if_pos (mem_range (by omega) hlo hhi), toNat_ofNat_of_lt (by omega : 0x80 + k < 0x100),
    Nat.add_sub_cancel_left, List.singleton_append]

/-- Reading a byte that begins a character. -/
theorem decodeFrom_start {k bits more : Nat} {lo hi : UInt8}
    (h : start (UInt8.ofNat k) = ([], .within bits more lo hi)) (rest : Bytes) :
    decodeFrom .idle (UInt8.ofNat k :: rest) = decodeFrom (.within bits more lo hi) rest := by
  rw [decodeFrom]
  simp only [step, h, List.nil_append]

/-! ## Characters

A character has one to four bytes, by how large it is. In each case the reader comes to the state that the rest of the
bytes are for, and with the last one to the character. -/

/-- The first byte of a character of three bytes, and the range that it calls for. -/
theorem start_of_three {n : Nat} (hlo : 0x800 ≤ n) (hhi : n < 0x10000) (hvalid : n < 0xD800 ∨ 0xDFFF < n) :
    ∃ lo hi, start (UInt8.ofNat (0xE0 + n / 0x1000)) = ([], .within (n / 0x1000) 1 lo hi) ∧
      lo.toNat ≤ 0x80 + n / 0x40 % 0x40 ∧ 0x80 + n / 0x40 % 0x40 ≤ hi.toNat := by
  rw [start_ofNat (by omega), if_neg (by omega), if_neg (by omega), if_neg (by omega)]
  by_cases hfirst : n / 0x1000 = 0
  · rw [if_pos (by omega), hfirst]
    exact ⟨0xA0, 0xBF, rfl, show 0xA0 ≤ 0x80 + n / 0x40 % 0x40 by omega, show 0x80 + n / 0x40 % 0x40 ≤ 0xBF by omega⟩
  · rw [if_neg (by omega)]
    by_cases hlast : n / 0x1000 = 0xD
    · rw [if_pos (by omega), hlast]
      exact ⟨0x80, 0x9F, rfl, Nat.le_add_right _ _, show 0x80 + n / 0x40 % 0x40 ≤ 0x9F by omega⟩
    · rw [if_neg (by omega), if_pos (by omega), Nat.add_sub_cancel_left]
      exact ⟨0x80, 0xBF, rfl, Nat.le_add_right _ _, show 0x80 + n / 0x40 % 0x40 ≤ 0xBF by omega⟩

/-- The first byte of a character of four bytes, and the range that it calls for. -/
theorem start_of_four {n : Nat} (hlo : 0x10000 ≤ n) (hhi : n < 0x110000) :
    ∃ lo hi, start (UInt8.ofNat (0xF0 + n / 0x40000)) = ([], .within (n / 0x40000) 2 lo hi) ∧
      lo.toNat ≤ 0x80 + n / 0x1000 % 0x40 ∧ 0x80 + n / 0x1000 % 0x40 ≤ hi.toNat := by
  rw [start_ofNat (by omega), if_neg (by omega), if_neg (by omega), if_neg (by omega), if_neg (by omega),
    if_neg (by omega), if_neg (by omega)]
  by_cases hfirst : n / 0x40000 = 0
  · rw [if_pos (by omega), hfirst]
    exact ⟨0x90, 0xBF, rfl, show 0x90 ≤ 0x80 + n / 0x1000 % 0x40 by omega,
      show 0x80 + n / 0x1000 % 0x40 ≤ 0xBF by omega⟩
  · rw [if_neg (by omega)]
    by_cases hlast : n / 0x40000 = 4
    · rw [if_neg (by omega), if_pos (by omega), hlast]
      exact ⟨0x80, 0x8F, rfl, Nat.le_add_right _ _, show 0x80 + n / 0x1000 % 0x40 ≤ 0x8F by omega⟩
    · rw [if_pos (by omega), Nat.add_sub_cancel_left]
      exact ⟨0x80, 0xBF, rfl, Nat.le_add_right _ _, show 0x80 + n / 0x1000 % 0x40 ≤ 0xBF by omega⟩

/-- **The bytes of a character are read as that character,** and the reader is where it was before. -/
theorem decodeFrom_encodeChar (c : Char) (rest : Bytes) :
    decodeFrom .idle (encodeChar c ++ rest) = c :: decodeFrom .idle rest := by
  have hc : Char.ofNat c.toNat = c := Char.ofNat_toNat c
  have hvalid : c.toNat < 0xD800 ∨ 0xDFFF < c.toNat ∧ c.toNat < 0x110000 := c.valid
  unfold encodeChar
  generalize c.toNat = n at hc hvalid
  dsimp only
  split_ifs with h₁ h₂ h₃
  -- one byte
  · have hstart : start (UInt8.ofNat n) = ([c], .idle) := by
      rw [start_ofNat (by omega), if_pos h₁, hc]
    rw [List.singleton_append, decodeFrom]
    simp only [step, hstart, List.singleton_append]
  -- two bytes
  · have hstart : start (UInt8.ofNat (0xC0 + n / 0x40)) = ([], .within (n / 0x40) 0 0x80 0xBF) := by
      rw [start_ofNat (by omega), if_neg (by omega), if_neg (by omega), if_pos (by omega), Nat.add_sub_cancel_left]
    have hbits : n / 0x40 * 0x40 + n % 0x40 = n := Nat.div_add_mod' n 0x40
    have hlast : 0x80 + n % 0x40 ≤ 0xBF := by omega
    simp only [List.cons_append, List.nil_append]
    rw [decodeFrom_start hstart, decodeFrom_within_last (by omega) (Nat.le_add_right _ _) hlast, hbits, hc]
  -- three bytes, where shorter forms and surrogates narrow what may be second
  · obtain ⟨lo, hi, hstart, hlo, hhi⟩ := start_of_three (by omega) h₃ (hvalid.imp_right And.left)
    have hbits : (n / 0x1000 * 0x40 + n / 0x40 % 0x40) * 0x40 + n % 0x40 = n := by omega
    have hlast : 0x80 + n % 0x40 ≤ 0xBF := by omega
    simp only [List.cons_append, List.nil_append]
    rw [decodeFrom_start hstart, decodeFrom_within_more (by omega) hlo hhi,
      decodeFrom_within_last (by omega) (Nat.le_add_right _ _) hlast, hbits, hc]
  -- four bytes, where shorter forms and the bound on code points narrow what may be second
  · obtain ⟨lo, hi, hstart, hlo, hhi⟩ := start_of_four (Nat.le_of_not_lt h₃) (by omega)
    have hbits : ((n / 0x40000 * 0x40 + n / 0x1000 % 0x40) * 0x40 + n / 0x40 % 0x40) * 0x40 + n % 0x40 = n := by omega
    have hnext : 0x80 + n / 0x40 % 0x40 ≤ 0xBF := by omega
    have hlast : 0x80 + n % 0x40 ≤ 0xBF := by omega
    simp only [List.cons_append, List.nil_append]
    rw [decodeFrom_start hstart, decodeFrom_within_more (by omega) hlo hhi,
      decodeFrom_within_more (by omega) (Nat.le_add_right _ _) hnext,
      decodeFrom_within_last (by omega) (Nat.le_add_right _ _) hlast, hbits, hc]

/-- So it is with any characters one after the other. -/
theorem decode_encode (cs : List Char) : decode (encode cs) = cs := by
  induction cs with
  | nil => rfl
  | cons c cs ih => rw [decode, encode, List.flatMap_cons, decodeFrom_encodeChar, ← encode, ← decode, ih]

/-- Reading the bytes of a text gives the text. -/
theorem lossy_bytes (s : String) : lossy (bytes s) = s := by
  rw [lossy, bytes, decode_encode, String.ofList_toList]

end ThemedPages.Utf8
