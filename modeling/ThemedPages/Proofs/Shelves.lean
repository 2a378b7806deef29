import ThemedPages.Proofs.LookUps

/-!
# The shelf

What a catalog remembers. A finding goes on the shelf if nothing is there for its key, and stays there until the catalog
is told to forget. `Catalog.lookup_remember_of_opened?` says what is on the shelf after some events, and
`Catalog.Numbered` that no two findings have the same number.

What is remembered of some events is put on the shelf one finding after the other, and most of what there is to say is
kept by each: `Catalog.remember_induction` is the induction for that. What is found for a key first is what stays, which
`opened?` picks from the events.
-/

namespace ThemedPages

/-- The template that is first found for a key among some events. -/
def opened? (key : Key) : List Event → Option Loaded
  | [] => none
  | .opened key' found :: rest => if key' = key then some found else opened? key rest
  | _ :: rest => opened? key rest

theorem mem_of_opened? {key : Key} {found : Loaded} {es : List Event} (h : opened? key es = some found) :
    .opened key found ∈ es := by
  induction es with
  | nil => cases h
  | cons e rest ih =>
    cases e with
    | opened key' found' =>
      rw [opened?] at h
      by_cases hkey : key' = key
      · rw [if_pos hkey] at h
        rw [hkey, Option.some.inj h]
        exact List.mem_cons_self
      · rw [if_neg hkey] at h
        exact List.mem_cons_of_mem _ (ih h)
    | _ => exact List.mem_cons_of_mem _ (ih h)

namespace Catalog

variable {c : Catalog} {key : Key} {shelved : Shelved}

/-! ## Putting a finding on the shelf

There are two cases, by whether something is there for the key. If so, nothing changes, and otherwise there is one
finding more, with the next number. -/

/-- What is on the shelf stays there, and the new finding is not kept. -/
theorem shelve_of_some (h : c.shelf.lookup key = some shelved) (found : Loaded) : c.shelve key found = c := by
  rw [shelve, h]

/-- A finding for a new key is put in front, with the next number. -/
theorem shelve_of_none (h : c.shelf.lookup key = none) (found : Loaded) :
    c.shelve key found = { c with shelf := (key, ⟨c.findings, found⟩) :: c.shelf, findings := c.findings + 1 } := by
  rw [shelve, h]

/-- It is then what is found for that key. -/
theorem lookup_shelve_self (h : c.shelf.lookup key = none) (found : Loaded) :
    (c.shelve key found).shelf.lookup key = some ⟨c.findings, found⟩ := by
  rw [shelve_of_none h, List.lookup_cons_self]

/-- Other findings are not affected. -/
theorem lookup_shelve_of_ne {key' : Key} (h : key' ≠ key) (found : Loaded) :
    (c.shelve key found).shelf.lookup key' = c.shelf.lookup key' := by
  rcases hlookup : c.shelf.lookup key with _ | shelved
  · have hne : (key' == key) = false := beq_eq_false_iff_ne.mpr h
    rw [shelve_of_none hlookup]
    simp only [List.lookup_cons, hne]
  · rw [shelve_of_some hlookup]

/-- What is on the shelf stays there. -/
theorem lookup_shelve_of_some (h : c.shelf.lookup key = some shelved) (key' : Key) (found : Loaded) :
    (c.shelve key' found).shelf.lookup key = some shelved := by
  by_cases hkey : key = key'
  · subst hkey
    rw [shelve_of_some h]
    exact h
  · rw [lookup_shelve_of_ne hkey]
    exact h

/-- The shelf has nothing to do with the roots. -/
theorem base_shelve (c : Catalog) (key : Key) (found : Loaded) : (c.shelve key found).base = c.base := by
  unfold shelve
  split <;> rfl

theorem themes_shelve (c : Catalog) (key : Key) (found : Loaded) : (c.shelve key found).themes = c.themes := by
  unfold shelve
  split <;> rfl

theorem findings_le_shelve (c : Catalog) (key : Key) (found : Loaded) : c.findings ≤ (c.shelve key found).findings := by
  unfold shelve
  split
  · exact Nat.le_refl _
  · exact Nat.le_succ _

/-! ## Remembering

By what is on the shelf for a key before: it stays if there is something, and otherwise it is the first finding for
this key among the events. -/

theorem remember_cons_opened (c : Catalog) (key : Key) (found : Loaded) (es : List Event) :
    c.remember (.opened key found :: es) = (c.shelve key found).remember es :=
  rfl

/-- What holds of a catalog and remains so whenever a finding is put on the shelf holds of what it remembers. -/
theorem remember_induction {motive : Catalog → Prop} (h : motive c)
    (hshelve : ∀ {c} key found, motive c → motive (c.shelve key found)) (es : List Event) :
    motive (c.remember es) := by
  induction es generalizing c with
  | nil => exact h
  | cons e rest ih =>
    cases e with
    | opened key found => exact ih (hshelve key found h)
    | _ => exact ih h

/-- What is on the shelf stays there. -/
theorem lookup_remember_of_some (h : c.shelf.lookup key = some shelved) (es : List Event) :
    (c.remember es).shelf.lookup key = some shelved :=
  remember_induction (motive := fun c => c.shelf.lookup key = some shelved) h
    (fun key' found h => lookup_shelve_of_some h key' found) es

/-- What was never found is not on the shelf. -/
theorem lookup_remember_of_none (h : c.shelf.lookup key = none) {es : List Event} (hes : opened? key es = none) :
    (c.remember es).shelf.lookup key = none := by
  induction es generalizing c with
  | nil => exact h
  | cons e rest ih =>
    cases e with
    | opened key' found =>
      rw [opened?] at hes
      by_cases hkey : key' = key
      · rw [if_pos hkey] at hes
        cases hes
      · rw [if_neg hkey] at hes
        refine ih ?_ hes
        rw [lookup_shelve_of_ne (Ne.symm hkey)]
        exact h
    | _ => exact ih h hes

/-- Of what is not there yet, the first finding is put there, with a new number. -/
theorem lookup_remember_of_opened? (h : c.shelf.lookup key = none) {es : List Event} {found : Loaded}
    (hes : opened? key es = some found) :
    ∃ serial, c.findings ≤ serial ∧ (c.remember es).shelf.lookup key = some ⟨serial, found⟩ := by
  induction es generalizing c with
  | nil => cases hes
  | cons e rest ih =>
    cases e with
    | opened key' found' =>
      rw [opened?] at hes
      rw [remember_cons_opened]
      -- the first template opened with that key is the one that stays
      by_cases hkey : key' = key
      · subst hkey
        rw [if_pos rfl] at hes
        obtain rfl := Option.some.inj hes
        exact ⟨c.findings, Nat.le_refl _, lookup_remember_of_some (lookup_shelve_self h found') rest⟩
      · rw [if_neg hkey] at hes
        have hnone : (c.shelve key' found').shelf.lookup key = none := by
          rw [lookup_shelve_of_ne (Ne.symm hkey)]
          exact h
        obtain ⟨serial, hserial, hlookup⟩ := ih hnone hes
        exact ⟨serial, Nat.le_trans (findings_le_shelve c key' found') hserial, hlookup⟩
    | _ => exact ih h hes

theorem base_remember (c : Catalog) (es : List Event) : (c.remember es).base = c.base :=
  remember_induction (motive := fun c' => c'.base = c.base) rfl (fun _ _ h => (base_shelve _ _ _).trans h) es

theorem themes_remember (c : Catalog) (es : List Event) : (c.remember es).themes = c.themes :=
  remember_induction (motive := fun c' => c'.themes = c.themes) rfl (fun _ _ h => (themes_shelve _ _ _).trans h) es

theorem findings_le_remember (c : Catalog) (es : List Event) : c.findings ≤ (c.remember es).findings :=
  remember_induction (motive := fun c' => c.findings ≤ c'.findings) (Nat.le_refl _)
    (fun _ _ h => Nat.le_trans h (findings_le_shelve _ _ _)) es

/-! ## Numbers of findings

The number is what tells two findings apart that are otherwise the same. That no number is on the shelf twice is kept,
since a new number is greater than all that were given. -/

/-- The findings on the shelf are numbered: each has a number that was given already, and no other one has it. -/
structure Numbered (c : Catalog) : Prop where
  /-- the numbers were given already -/
  lt : ∀ {key shelved}, c.shelf.lookup key = some shelved → shelved.serial < c.findings
  /-- and each only once -/
  inj : ∀ {key key' shelved shelved'}, c.shelf.lookup key = some shelved → c.shelf.lookup key' = some shelved' →
    shelved.serial = shelved'.serial → key = key'

/-- Nothing on the shelf has a number. -/
theorem Numbered.of_nil (h : c.shelf = []) : c.Numbered := by
  constructor
  · intro key shelved hlookup
    rw [h] at hlookup
    cases hlookup
  · intro key key' shelved shelved' hlookup
    rw [h] at hlookup
    cases hlookup

/-- **Putting a finding on the shelf keeps the numbers apart.** The cases are whether the keys are the new one: if one
is, its number is the next one, and that of the other is smaller. -/
theorem Numbered.shelve (h : c.Numbered) (key : Key) (found : Loaded) : (c.shelve key found).Numbered := by
  rcases hlookup : c.shelf.lookup key with _ | shelved
  · have hself := lookup_shelve_self hlookup found
    have hfindings : (c.shelve key found).findings = c.findings + 1 := by rw [shelve_of_none hlookup]
    constructor
    · intro key' shelved' h'
      rw [hfindings]
      by_cases hkey : key' = key
      · subst hkey
        obtain rfl := Option.some.inj (hself.symm.trans h')
        exact Nat.lt_succ_self _
      · rw [lookup_shelve_of_ne hkey] at h'
        exact Nat.lt_succ_of_lt (h.lt h')
    · intro key₁ key₂ shelved₁ shelved₂ h₁ h₂ hserial
      -- the new number is greater than all that are on the shelf
      by_cases hkey₁ : key₁ = key <;> by_cases hkey₂ : key₂ = key
      · rw [hkey₁, hkey₂]
      · subst hkey₁
        rw [lookup_shelve_of_ne hkey₂] at h₂
        obtain rfl := Option.some.inj (hself.symm.trans h₁)
        have := h.lt h₂
        dsimp only at hserial
        omega
      · subst hkey₂
        rw [lookup_shelve_of_ne hkey₁] at h₁
        obtain rfl := Option.some.inj (hself.symm.trans h₂)
        have := h.lt h₁
        dsimp only at hserial
        omega
      · rw [lookup_shelve_of_ne hkey₁] at h₁
        rw [lookup_shelve_of_ne hkey₂] at h₂
        exact h.inj h₁ h₂ hserial
  · rw [shelve_of_some hlookup]
    exact h

/-- So whatever is remembered keeps them apart. -/
theorem Numbered.remember (h : c.Numbered) (es : List Event) : (c.remember es).Numbered :=
  remember_induction h (fun key found h => h.shelve key found) es

end Catalog

end ThemedPages
