/-!
# Cutting a text into parts

A text cut at every place where a given character stands. There is always one part more than there are such places.
-/

namespace ThemedPages

/-- The parts of a text between the places where a character stands. -/
def splitAtChar (c : Char) : List Char → List (List Char)
  | [] => [[]]
  | d :: rest =>
    if d = c then [] :: splitAtChar c rest
    else
      match splitAtChar c rest with
      | [] => [[d]]
      | part :: parts => (d :: part) :: parts

variable {c : Char}

theorem splitAtChar_ne_nil (text : List Char) : splitAtChar c text ≠ [] := by
  fun_cases splitAtChar c text <;> simp_all

/-- Cutting a text around one of the places cuts what is before it and what is after it. -/
theorem splitAtChar_append_cons (before after : List Char) :
    splitAtChar c (before ++ c :: after) = splitAtChar c before ++ splitAtChar c after := by
  induction before with
  | nil => simp [splitAtChar]
  | cons d rest ih =>
    by_cases hd : d = c
    · simp [splitAtChar, hd, ih]
    · rcases h : splitAtChar c rest with _ | ⟨part, parts⟩
      · exact absurd h (splitAtChar_ne_nil rest)
      · simp [splitAtChar, hd, ih, h]

/-- The parts with the character put back between them are the text. -/
theorem intercalate_splitAtChar (text : List Char) : [c].intercalate (splitAtChar c text) = text := by
  induction text with
  | nil => simp [splitAtChar]
  | cons d rest ih =>
    have hne := splitAtChar_ne_nil (c := c) rest
    by_cases hd : d = c
    · simp [splitAtChar, hd, List.intercalate_cons_of_ne_nil hne, ih]
    · rcases h : splitAtChar c rest with _ | ⟨part, parts⟩
      · exact absurd h hne
      · rw [h] at ih
        simp [splitAtChar, hd, h, List.intercalate_cons_cons_left, ih]

theorem not_mem_of_mem_splitAtChar {text part : List Char} (h : part ∈ splitAtChar c text) : c ∉ part := by
  induction text generalizing part with
  | nil => simp_all [splitAtChar]
  | cons d rest ih =>
    by_cases hd : d = c
    · simp only [splitAtChar, hd, if_true, List.mem_cons] at h
      rcases h with rfl | h
      · exact List.not_mem_nil
      · exact ih h
    · rcases hs : splitAtChar c rest with _ | ⟨first, parts⟩
      · exact absurd hs (splitAtChar_ne_nil rest)
      · simp only [splitAtChar, hd, hs, if_false, List.mem_cons] at h
        rcases h with rfl | h
        · have hfirst : c ∉ first := ih (by simp [hs])
          simp [Ne.symm hd, hfirst]
        · exact ih (by simp [hs, h])

end ThemedPages
