import Mathlib.Data.Set.Card
import ThemedPages.Proofs.LookUps

/-!
# Ways up

A lineage is what is met on the way up from a leaf: the leaf, its parent, the parent of that, and so on. The way up
arrives at a template that extends nothing, or it comes to one that was met before, or else a parent is not found.

* `ancestor?` is the template so many steps up, and says nothing about where to stop.
* `Ascent.Describes` says how a way up ends, in terms of these. `Ascent.climb_eq` says that this is what climbing comes
  to, and in how many rounds.
* `Trail.length_le`: what is met before that are different templates, and all but the leaf can be reached from it.
* `Catalog.existsUnique_ascent` puts this together for the templates of a catalog.

There is no bound on rounds in the description, and nothing about the order in which things are looked up. It only
speaks of the template so many steps up and of the first step at which one comes again. A trail is the part of the way
on which everything went well. It can be one longer, or else the way up ends with it
(`Ascent.exists_describes_or_concat`), and it cannot get longer for ever, as only so many templates are reached.
-/

namespace ThemedPages

section

variable (find : String → Transcript Loaded)

/-- What is found as the parent of a template, and nothing if it extends nothing. -/
def Loaded.parentIn (t : Loaded) : Option (Except Stop Loaded) :=
  t.template.parent.map fun path => (find path).outcome

/-- The template so many steps up from a leaf, each step from a template to its parent, if that is found. -/
def ancestor? (leaf : Loaded) : Nat → Option Loaded
  | 0 => some leaf
  | k + 1 =>
    match (ancestor? leaf k).bind (Loaded.parentIn find) with
    | some (.ok parent) => some parent
    | _ => none

/-- Where the templates are that can be reached from a leaf, in one step or more. -/
def reachable (leaf : Loaded) : Set Origin :=
  {origin | ∃ k t, ancestor? find leaf (k + 1) = some t ∧ t.origin = origin}

/-- The templates are the first ones on the way up from a leaf, and all different. -/
structure Trail (leaf : Loaded) (ts : List Loaded) : Prop where
  /-- each one is so many steps up as it has before it -/
  getElem? (k : Nat) (h : k < ts.length) : ts[k]? = ancestor? find leaf k
  /-- no template is met twice -/
  nodup : (ts.map (·.origin)).Nodup

end

/-! ## Ways up and their ends

What is met is a list of templates from the leaf on. How the way up ends is seen from the last of them and from its
parent. -/

/-- A way up, as far as it goes. -/
inductive Ascent where
  /-- it arrives at a template that extends nothing -/
  | arrives (l : Lineage)
  /-- from the last template that was met, it comes to one of them again -/
  | closes (met : List Loaded) (again : Loaded)
  /-- the parent of the last template that was met is not found -/
  | breaks (met : List Loaded) (e : Error)

namespace Ascent

/-- The templates that are met, from the leaf upwards. -/
def met : Ascent → List Loaded
  | arrives l => l.templates
  | closes met _ => met
  | breaks met _ => met

/-- What comes of it. -/
def outcome : Ascent → Except Stop Lineage
  | arrives l => .ok l
  | closes met again => .error (.error (.cyclic ((met ++ [again]).map fun t => t.origin.text)))
  | breaks _ e => .error (.error e)

/-- What happens when the parents of some templates are looked up, one after the other. -/
def eventsOf (find : String → Transcript Loaded) (ts : List Loaded) : List Event :=
  ts.flatMap fun t => t.template.parent.elim [] fun path => (find path).events

/-- What happens on the way: the parent of each template that is met is looked up. -/
def events (find : String → Transcript Loaded) (a : Ascent) : List Event := eventsOf find a.met

/-- The way up from a leaf goes so far, and ends like this. -/
inductive Describes (find : String → Transcript Loaded) (leaf : Loaded) : Ascent → Prop where
  /-- at the first template that extends nothing -/
  | arrives {l : Lineage} (trail : Trail find leaf l.templates) (base : l.base.template.parent = none) :
    Describes find leaf (.arrives l)
  /-- at the first template that was met before -/
  | closes {met : List Loaded} {again : Loaded} (trail : Trail find leaf met)
    (next : ancestor? find leaf met.length = some again) (old : again.origin ∈ met.map (·.origin)) :
    Describes find leaf (.closes met again)
  /-- at the first parent that is not found -/
  | breaks {met : List Loaded} {e : Error} (trail : Trail find leaf met)
    (next : met.getLast?.bind (Loaded.parentIn find) = some (.error (.error e))) :
    Describes find leaf (.breaks met e)

end Ascent

section

variable {find : String → Transcript Loaded} {leaf : Loaded}

/-! ## Steps

A step up is looking for the parent of a template. It depends on the template alone, so the templates so many steps up
are determined by the leaf. -/

/-- A step up is one to a parent that is found. -/
theorem ancestor?_succ_eq_some {k : Nat} {parent : Loaded} :
    ancestor? find leaf (k + 1) = some parent ↔
      ∃ t, ancestor? find leaf k = some t ∧ t.parentIn find = some (.ok parent) := by
  rw [ancestor?]
  rcases h : ancestor? find leaf k with _ | t
  · simp
  · simp only [Option.bind_some]
    rcases hparent : t.parentIn find with _ | stop | p <;> simp [hparent]

/-- A step up from a given template. -/
theorem ancestor?_succ_of_eq {k : Nat} {t : Loaded} (h : ancestor? find leaf k = some t) (parent : Loaded) :
    ancestor? find leaf (k + 1) = some parent ↔ t.parentIn find = some (.ok parent) := by
  rw [ancestor?_succ_eq_some, h]
  simp

/-- What is found where the parent is looked for. -/
theorem parentIn_eq_some {t : Loaded} {found : Except Stop Loaded} :
    t.parentIn find = some found ↔ ∃ path, t.template.parent = some path ∧ (find path).outcome = found :=
  Option.map_eq_some_iff

theorem parentIn_eq_none {t : Loaded} : t.parentIn find = none ↔ t.template.parent = none := Option.map_eq_none_iff

/-- The template of a lineage that extends nothing is the last one. -/
theorem Lineage.getLast?_templates (l : Lineage) : l.templates.getLast? = some l.base := by
  rw [templates, base, List.getLast?_cons]

/-! ## Trails

A trail is what is met while nothing has ended yet: the ancestors of the leaf in order, all of them different. It is
closed under going one step further, as long as the parent is found and is new. -/

namespace Trail

variable {ts : List Loaded}

/-- Where the last template of a trail is. -/
theorem ancestor?_length {below above : List Loaded} {t : Loaded} (h : Trail find leaf (below ++ t :: above)) :
    ancestor? find leaf below.length = some t := by
  rw [← h.getElem? below.length (by simp)]
  simp

theorem singleton : Trail find leaf [leaf] where
  getElem? k hk := by
    obtain rfl := Nat.lt_one_iff.mp hk
    rfl
  nodup := List.nodup_singleton _

/-- A trail goes on with a template that was not met. -/
theorem concat (h : Trail find leaf ts) {t : Loaded} (ht : ancestor? find leaf ts.length = some t)
    (hnew : t.origin ∉ ts.map (·.origin)) : Trail find leaf (ts ++ [t]) where
  getElem? k hk := by
    rw [List.length_append, List.length_singleton] at hk
    rcases Nat.lt_succ_iff_lt_or_eq.mp hk with hlt | rfl
    · rw [List.getElem?_append_left hlt]
      exact h.getElem? k hlt
    · rw [List.getElem?_concat_length, ht]
  nodup := by
    rw [List.map_append, List.nodup_append']
    exact ⟨h.nodup, List.nodup_singleton _, by simpa using hnew⟩

/-- The beginning of a trail is a trail. -/
theorem of_append {above : List Loaded} (h : Trail find leaf (ts ++ above)) : Trail find leaf ts where
  getElem? k hk := by
    rw [← List.getElem?_append_left hk]
    exact h.getElem? k (by rw [List.length_append]; omega)
  nodup := by
    have hnodup := h.nodup
    rw [List.map_append] at hnodup
    exact hnodup.of_append_left

theorem head_eq {rest : List Loaded} {t : Loaded} (h : Trail find leaf (t :: rest)) : t = leaf :=
  Option.some.inj (h.getElem? 0 (by simp))

/-- Two trails of the same length are the same. -/
theorem eq_of_length_eq {ts' : List Loaded} (h : Trail find leaf ts) (h' : Trail find leaf ts')
    (hlength : ts.length = ts'.length) : ts = ts' := by
  refine List.ext_getElem? fun k => ?_
  by_cases hk : k < ts.length
  · rw [h.getElem? k hk, h'.getElem? k (hlength ▸ hk)]
  · rw [List.getElem?_eq_none (Nat.le_of_not_lt hk), List.getElem?_eq_none (hlength ▸ Nat.le_of_not_lt hk)]

/-- All templates of a trail but the leaf can be reached, so that there are not many more of them. -/
theorem length_le (h : Trail find leaf ts) (hfinite : (reachable find leaf).Finite) :
    ts.length ≤ (reachable find leaf).ncard + 1 := by
  match ts, h with
  | [], _ => exact Nat.zero_le _
  | t :: rest, h =>
    have hnodup : (rest.map (·.origin)).Nodup := (List.nodup_cons.mp h.nodup).2
    have hsubset : ((rest.map (·.origin)).toFinset : Set Origin) ⊆ reachable find leaf := by
      intro origin horigin
      obtain ⟨t', ht', rfl⟩ := List.mem_map.mp (List.mem_toFinset.mp horigin)
      obtain ⟨k, hk, hget⟩ := List.getElem_of_mem ht'
      refine ⟨k, t', ?_, rfl⟩
      rw [← h.getElem? (k + 1) (Nat.succ_lt_succ hk), List.getElem?_cons_succ, List.getElem?_eq_getElem hk, hget]
    have hcard := Set.ncard_le_ncard hsubset hfinite
    rw [Set.ncard_coe_finset, List.toFinset_card_of_nodup hnodup, List.length_map] at hcard
    rw [List.length_cons]
    omega

end Trail

/-! ## What climbing comes to

Climbing is compared with its description from an arbitrary point on the way: with what was met below, and what is
still to be met. -/

namespace Ascent

variable {a : Ascent}

/-- What is met, whatever the end is, is a trail. -/
theorem Describes.trail (h : a.Describes find leaf) : Trail find leaf a.met := by
  cases h <;> assumption

theorem Describes.met_ne_nil (h : a.Describes find leaf) : a.met ≠ [] := by
  cases h with
  | arrives _ _ => exact List.cons_ne_nil _ _
  | closes _ _ old => exact fun hnil => by simp [met] at hnil; simp [hnil] at old
  | breaks _ next => exact fun hnil => by simp [met] at hnil; simp [hnil] at next

/-- What climbing comes to where the last template is met. -/
theorem Describes.climb_last (h : a.Describes find leaf) {below : List Loaded} {current : Loaded}
    (hmet : a.met = below ++ [current]) (fuel : Nat) :
    Lineage.climb find (fuel + 1) below current = ⟨eventsOf find [current], a.outcome.map fun _ => []⟩ := by
  rw [Lineage.climb]
  cases h with
  -- nothing is extended, so nothing more is looked for
  | @arrives l trail base =>
    obtain rfl : l.base = current := by
      have hlast := l.getLast?_templates
      rw [show l.templates = _ from hmet, List.getLast?_concat] at hlast
      exact (Option.some.inj hlast).symm
    rw [base]
    simp [eventsOf, base, Ascent.outcome, Except.map, pure]
  -- the parent is found, and is among those that were met
  | @closes met again trail next old =>
    obtain rfl : met = below ++ [current] := hmet
    rw [List.length_append, List.length_singleton, ancestor?_succ_of_eq trail.ancestor?_length] at next
    obtain ⟨path, hpath, hfound⟩ := parentIn_eq_some.mp next
    have hany : ((below ++ [current]).any fun t => t.origin = again.origin) = true := by
      obtain ⟨t, ht, horigin⟩ := List.mem_map.mp old
      exact List.any_eq_true.mpr ⟨t, ht, by simpa using horigin⟩
    rw [hpath]
    dsimp only
    rw [Transcript.bind_of_ok hfound, hany]
    simp [eventsOf, hpath, Ascent.outcome, Except.map]
  -- the parent is not found
  | @breaks met e trail next =>
    obtain rfl : met = below ++ [current] := hmet
    rw [List.getLast?_concat, Option.bind_some] at next
    obtain ⟨path, hpath, hfound⟩ := parentIn_eq_some.mp next
    rw [hpath]
    dsimp only
    rw [Transcript.bind_of_error hfound]
    simp [eventsOf, hpath, Ascent.outcome, Except.map]

/-- What climbing comes to where the next template is met. -/
theorem Describes.climb_next (h : a.Describes find leaf) {below above : List Loaded} {current parent : Loaded}
    (hmet : a.met = below ++ current :: parent :: above) (fuel : Nat) :
    ∃ path, current.template.parent = some path ∧ (find path).outcome = .ok parent ∧
      Lineage.climb find (fuel + 1) below current =
        find path >>= fun _ => (parent :: ·) <$> Lineage.climb find fuel (below ++ [current]) parent := by
  have htrail : Trail find leaf ((below ++ [current]) ++ parent :: above) := by
    rw [List.append_assoc]
    exact hmet ▸ h.trail
  have hcurrent : ancestor? find leaf below.length = some current := (hmet ▸ h.trail).ancestor?_length
  have hparent := htrail.ancestor?_length
  rw [List.length_append, List.length_singleton, ancestor?_succ_of_eq hcurrent] at hparent
  obtain ⟨path, hpath, hfound⟩ := parentIn_eq_some.mp hparent
  -- the parent is met for the first time
  have hany : ((below ++ [current]).any fun t => t.origin = parent.origin) = false := by
    have hnodup := htrail.nodup
    rw [List.map_append, List.nodup_append'] at hnodup
    refine List.any_eq_false.mpr fun t ht horigin => ?_
    refine hnodup.2.2 (List.mem_map_of_mem ht) ?_
    rw [of_decide_eq_true horigin]
    exact List.mem_cons_self
  refine ⟨path, hpath, hfound, ?_⟩
  rw [Lineage.climb, hpath]
  dsimp only
  rw [Transcript.bind_of_ok hfound, Transcript.bind_of_ok hfound, hany]
  simp only [Bool.false_eq_true, if_false, map_eq_pure_bind]

/-- Climbing takes as many rounds as templates are met, and comes to what the way up is described by. The induction is
on the templates that are still to be met. -/
theorem Describes.climb_eq (h : a.Describes find leaf) {below above : List Loaded} {current : Loaded}
    (hmet : a.met = below ++ current :: above) (fuel : Nat) :
    (above.length < fuel → Lineage.climb find fuel below current =
      ⟨eventsOf find (current :: above), a.outcome.map fun _ => above⟩) ∧
    (fuel ≤ above.length → (Lineage.climb find fuel below current).outcome = .error .endless) := by
  induction above generalizing below current fuel with
  | nil =>
    cases fuel with
    | zero => exact ⟨fun hfuel => absurd hfuel (Nat.lt_irrefl 0), fun _ => rfl⟩
    | succ fuel => exact ⟨fun _ => h.climb_last hmet fuel, fun hfuel => absurd hfuel (Nat.not_succ_le_zero fuel)⟩
  | cons parent above ih =>
    cases fuel with
    | zero => exact ⟨fun hfuel => absurd hfuel (Nat.not_lt_zero _), fun _ => rfl⟩
    | succ fuel =>
      -- the parent is found and is new, so the way goes on from there
      obtain ⟨path, hpath, hfound, hclimb⟩ := h.climb_next hmet fuel
      have hmet' : a.met = (below ++ [current]) ++ parent :: above := by rw [hmet, List.append_assoc]; rfl
      obtain ⟨hlong, hshort⟩ := ih hmet' fuel
      rw [hclimb, Transcript.bind_of_ok hfound, List.length_cons]
      refine ⟨fun hfuel => ?_, fun hfuel => ?_⟩
      · rw [hlong (Nat.lt_of_succ_lt_succ hfuel)]
        refine Transcript.ext ?_ ?_
        · rw [Transcript.events_map]
          simp [eventsOf, hpath]
        · rw [Transcript.outcome_map]
          cases a.outcome <;> rfl
      · rw [Transcript.outcome_map, hshort (Nat.le_of_succ_le_succ hfuel)]
        rfl

/-- The templates above the leaf. -/
theorem Describes.exists_met (h : a.Describes find leaf) : ∃ above, a.met = leaf :: above := by
  obtain ⟨t, above, hmet⟩ := List.exists_cons_of_ne_nil h.met_ne_nil
  have htrail := h.trail
  rw [hmet] at htrail
  obtain rfl := htrail.head_eq
  exact ⟨above, hmet⟩

/-- Climbing from the leaf ends if and only if it may take as many rounds as templates are met. -/
theorem Describes.climb_ne_endless_iff (h : a.Describes find leaf) (fuel : Nat) :
    (Lineage.climb find fuel [] leaf).outcome ≠ .error .endless ↔ a.met.length ≤ fuel := by
  obtain ⟨above, hmet⟩ := h.exists_met
  have hnone : a.met = [] ++ leaf :: above := hmet
  obtain ⟨hlong, hshort⟩ := h.climb_eq hnone fuel
  rw [hmet, List.length_cons]
  refine ⟨fun hend => Nat.lt_of_not_le fun hfuel => hend (hshort hfuel), fun hfuel => ?_⟩
  rw [hlong hfuel]
  cases a <;> simp [Ascent.outcome, Except.map]

/-- The lineage that climbing from the leaf comes to. -/
theorem Describes.map_climb (h : a.Describes find leaf) {fuel : Nat} (hfuel : a.met.length ≤ fuel) :
    Lineage.mk leaf <$> Lineage.climb find fuel [] leaf = ⟨a.events find, a.outcome⟩ := by
  obtain ⟨above, hmet⟩ := h.exists_met
  have hlength : above.length < fuel := by
    rw [hmet, List.length_cons] at hfuel
    exact hfuel
  have hnone : a.met = [] ++ leaf :: above := hmet
  rw [(h.climb_eq hnone fuel).1 hlength]
  refine Transcript.ext ?_ ?_
  · rw [Transcript.events_map, Ascent.events, hmet]
  · rw [Transcript.outcome_map]
    cases a with
    | arrives l =>
      obtain ⟨leaf', ancestors⟩ := l
      obtain ⟨rfl, rfl⟩ := List.cons.inj hmet
      rfl
    | closes _ _ => rfl
    | breaks _ _ => rfl

/-! ## There is always one description

Trails have only so many templates, as each of them can be reached and none comes twice. So going further comes to an
end. -/

/-- Only where the way up closes there is a template after those that are met. -/
theorem Describes.eq_closes (h : a.Describes find leaf) {next : Loaded}
    (hnext : ancestor? find leaf a.met.length = some next) : a = .closes a.met next := by
  obtain ⟨below, current, hmet⟩ := (List.eq_nil_or_concat' a.met).resolve_left h.met_ne_nil
  have hcurrent : ancestor? find leaf below.length = some current := (hmet ▸ h.trail).ancestor?_length
  have hparent : current.parentIn find = some (.ok next) := by
    rwa [hmet, List.length_append, List.length_singleton, ancestor?_succ_of_eq hcurrent] at hnext
  cases h with
  | @arrives l trail base =>
    have hbase := l.getLast?_templates
    rw [show l.templates = _ from hmet, List.getLast?_concat, Option.some.injEq] at hbase
    rw [hbase, parentIn_eq_none.mpr base] at hparent
    cases hparent
  | closes trail again old => rw [Option.some.inj (again.symm.trans hnext), met]
  | @breaks met e trail error =>
    obtain rfl : met = below ++ [current] := hmet
    rw [List.getLast?_concat, Option.bind_some, hparent] at error
    cases error

/-- A trail does not go on where a way up has ended. -/
theorem Describes.length_le_met (h : a.Describes find leaf) {ts : List Loaded} (hts : Trail find leaf ts) :
    ts.length ≤ a.met.length := by
  by_contra hlength
  have hlt := Nat.lt_of_not_le hlength
  obtain ⟨below, next, above, rfl, hbelow⟩ :
      ∃ below next above, ts = below ++ next :: above ∧ below.length = a.met.length :=
    ⟨ts.take a.met.length, ts[a.met.length], ts.drop (a.met.length + 1),
      by rw [← List.drop_eq_getElem_cons hlt, List.take_append_drop],
      List.length_take_of_le (Nat.le_of_lt hlt)⟩
  have hmet : a.met = below := h.trail.eq_of_length_eq hts.of_append hbelow.symm
  have hclosed := h.eq_closes (hmet ▸ hts.ancestor?_length)
  rw [hclosed] at h
  cases h with
  | closes _ _ old =>
    -- the next template is one of those before it, but the templates of a trail are all different
    have hnodup := hts.nodup
    rw [List.map_append, List.nodup_append'] at hnodup
    exact hnodup.2.2 (hmet ▸ old) List.mem_cons_self

/-- No two ways up from a leaf are described. -/
theorem Describes.unique {a' : Ascent} (h : a.Describes find leaf) (h' : a'.Describes find leaf) : a = a' := by
  have hmet : a.met = a'.met :=
    h.trail.eq_of_length_eq h'.trail (Nat.le_antisymm (h'.length_le_met h.trail) (h.length_le_met h'.trail))
  rcases hnext : ancestor? find leaf a.met.length with _ | next
  · -- neither closes, so that what climbing comes to tells them apart
    have hclimb := (h.map_climb (Nat.le_refl _)).symm.trans (hmet ▸ h'.map_climb (Nat.le_refl _))
    have houtcome : a.outcome = a'.outcome := congrArg Transcript.outcome hclimb
    cases h with
    | closes _ again _ => exact absurd (again.symm.trans hnext) (by simp)
    | arrives _ _ =>
      cases h' with
      | arrives _ _ => exact congrArg _ (Except.ok.inj houtcome)
      | closes _ _ _ => cases houtcome
      | breaks _ _ => cases houtcome
    | breaks _ _ =>
      cases h' with
      | arrives _ _ => cases houtcome
      | closes _ again _ => exact absurd (again.symm.trans (hmet ▸ hnext)) (by simp)
      | breaks _ _ =>
        cases houtcome
        exact (breaks.injEq ..).mpr ⟨hmet, rfl⟩
  · rw [h.eq_closes hnext, h'.eq_closes (hmet ▸ hnext), hmet]

/-- A trail ends, or it goes on. -/
theorem exists_describes_or_concat (hfind : ∀ path, (find path).outcome ≠ .error .endless) {ts : List Loaded}
    (hts : Trail find leaf ts) (hne : ts ≠ []) :
    (∃ a : Ascent, a.Describes find leaf) ∨ ∃ t, Trail find leaf (ts ++ [t]) := by
  obtain ⟨below, current, rfl⟩ := (List.eq_nil_or_concat' ts).resolve_left hne
  have hcurrent : ancestor? find leaf below.length = some current := hts.ancestor?_length
  have hlength : (below ++ [current]).length = below.length + 1 := by simp
  rcases hparent : current.parentIn find with _ | (e | _) | parent
  · obtain ⟨first, rest, hl⟩ := List.exists_cons_of_ne_nil hne
    have hbase : (Lineage.mk first rest).base = current := by
      have hlast := (Lineage.mk first rest).getLast?_templates
      rw [Lineage.templates, ← hl, List.getLast?_concat] at hlast
      exact (Option.some.inj hlast).symm
    refine .inl ⟨.arrives ⟨first, rest⟩, .arrives ?_ ?_⟩
    · rw [Lineage.templates, ← hl]
      exact hts
    · rw [hbase]
      exact parentIn_eq_none.mp hparent
  · exact .inl ⟨.breaks (below ++ [current]) e, .breaks hts (by rw [List.getLast?_concat]; exact hparent)⟩
  · obtain ⟨path, -, hfound⟩ := parentIn_eq_some.mp hparent
    exact absurd hfound (hfind path)
  · have hnext : ancestor? find leaf (below ++ [current]).length = some parent := by
      rw [hlength, ancestor?_succ_of_eq hcurrent]
      exact hparent
    -- the parent was met before, or the trail is one longer
    by_cases hold : parent.origin ∈ (below ++ [current]).map (·.origin)
    · exact .inl ⟨.closes (below ++ [current]) parent, .closes hts hnext hold⟩
    · exact .inr ⟨parent, hts.concat hnext hold⟩

/-- Where no way up is described, there is a trail of every length. -/
theorem exists_trail_of_not_describes (hfind : ∀ path, (find path).outcome ≠ .error .endless)
    (hnone : ¬∃ a : Ascent, a.Describes find leaf) (n : Nat) : ∃ ts, Trail find leaf ts ∧ ts.length = n + 1 := by
  induction n with
  | zero => exact ⟨[leaf], .singleton, rfl⟩
  | succ n ih =>
    obtain ⟨ts, hts, hlength⟩ := ih
    have hne : ts ≠ [] := List.ne_nil_of_length_eq_add_one hlength
    obtain ⟨t, ht⟩ := (exists_describes_or_concat hfind hts hne).resolve_left hnone
    exact ⟨ts ++ [t], ht, by rw [List.length_append, hlength, List.length_singleton]⟩

/-- Every way up is described: a trail that went on for ever would come to more templates than can be reached. -/
theorem exists_describes (hfind : ∀ path, (find path).outcome ≠ .error .endless)
    (hfinite : (reachable find leaf).Finite) : ∃ a : Ascent, a.Describes find leaf := by
  by_contra hnone
  obtain ⟨ts, hts, hlength⟩ := exists_trail_of_not_describes hfind hnone ((reachable find leaf).ncard + 1)
  have := hts.length_le hfinite
  omega

end Ascent

end

/-! ## The templates of a catalog

A catalog has finitely many templates that can be found, and its bound on climbing is beyond that. -/

namespace Catalog

/-- Under a theme, only so many templates can be reached. -/
theorem reachable_finite (c : Catalog) (theme : Option String) (leaf : Loaded) :
    (reachable (fun path => c.find ⟨path, theme⟩) leaf).Finite := by
  obtain ⟨origins, -, horigins⟩ := c.exists_origins theme
  refine Set.Finite.subset (List.finite_toSet origins) ?_
  rintro origin ⟨k, t, ht, rfl⟩
  obtain ⟨t', -, hparent⟩ := ancestor?_succ_eq_some.mp ht
  obtain ⟨path, -, hfound⟩ := parentIn_eq_some.mp hparent
  exact horigins path t hfound

/-- Looking for the lineage of a template comes to what the way up from it is described by. -/
theorem exists_describes_lineageOf (c : Catalog) (theme : Option String) (leaf : Loaded) :
    ∃ a : Ascent, a.Describes (fun path => c.find ⟨path, theme⟩) leaf ∧
      c.lineageOf theme leaf = ⟨a.events fun path => c.find ⟨path, theme⟩, a.outcome⟩ := by
  obtain ⟨a, ha⟩ := Ascent.exists_describes (fun path => find_ne_endless ⟨path, theme⟩) (c.reachable_finite theme leaf)
  refine ⟨a, ha, ?_⟩
  rw [lineageOf_eq c theme leaf (Nat.le_max_left _ a.met.length)]
  exact ha.map_climb (Nat.le_max_right _ _)

/-- The templates of a lineage are those on the way up. -/
theorem trail_of_lineageOf {c : Catalog} {theme : Option String} {leaf : Loaded} {l : Lineage}
    (h : (c.lineageOf theme leaf).outcome = .ok l) : Trail (fun path => c.find ⟨path, theme⟩) leaf l.templates := by
  obtain ⟨a, ha, heq⟩ := c.exists_describes_lineageOf theme leaf
  rw [heq] at h
  cases ha with
  | arrives trail _ =>
    cases h
    exact trail
  | closes => cases h
  | breaks => cases h

/-- The way up from a template ends in exactly one way: it arrives at the first template that extends nothing, or it
closes at the first one that was met before, or it breaks at the first parent that is not found. This is what comes of
looking for its lineage, in as many rounds as templates are met, and these are at most one more than can be reached. -/
theorem existsUnique_ascent (c : Catalog) (theme : Option String) (leaf : Loaded) :
    let find := fun path => c.find ⟨path, theme⟩
    (reachable find leaf).Finite ∧
    ∃ a : Ascent, a.Describes find leaf ∧ (∀ a' : Ascent, a'.Describes find leaf → a' = a) ∧
      c.lineageOf theme leaf = ⟨a.events find, a.outcome⟩ ∧
      (∀ fuel, (Lineage.climb find fuel [] leaf).outcome ≠ .error .endless ↔ a.met.length ≤ fuel) ∧
      a.met ≠ [] ∧ a.met.length ≤ (reachable find leaf).ncard + 1 := by
  intro find
  have hfinite := c.reachable_finite theme leaf
  have hfind : ∀ path, (find path).outcome ≠ .error .endless := fun path => find_ne_endless _
  obtain ⟨a, ha⟩ := Ascent.exists_describes hfind hfinite
  refine ⟨hfinite, a, ha, fun a' ha' => ha'.unique ha, ?_, ha.climb_ne_endless_iff, ha.met_ne_nil, ?_⟩
  · -- the bound on climbing is never reached, so that any other one does
    rw [lineageOf_eq c theme leaf (Nat.le_max_left _ a.met.length)]
    exact ha.map_climb (Nat.le_max_right _ _)
  · exact ha.trail.length_le hfinite

end Catalog

end ThemedPages
