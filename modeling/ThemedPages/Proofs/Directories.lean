import Mathlib.Data.List.Forall2
import ThemedPages.Config

/-!
# Directories in directories

To join a configuration to a directory and then to another one is to join it to the one directory in the other, and
what stands on its own stays as it is: `Config.relativeTo_action`. This rests on `Path.join_join`, that joining paths is
associative, whichever of them are empty, end in a slash or stand on their own.

What a path in a directory begins with is `Path.lead`: the directory, and a slash if it needs one. Joining puts the path
behind it, unless the path stands on its own. Associativity is then that of lists, once it is known what a joined path
leads with (`Path.lead_join`).
-/

namespace ThemedPages

namespace Path

variable {dir path : String}

/-! ## What the paths in a directory begin with

A slash is missing where the directory is neither empty nor ends in one. The cases are gone through here and nowhere
else. -/

theorem join_of_isAbsolute (h : isAbsolute path = true) (dir : String) : join dir path = path := if_pos h

theorem lead_of_ends (h : dir.toList = [] ∨ dir.toList.getLast? = some '/') : lead dir = dir.toList :=
  if_pos (h.imp_left String.toList_eq_nil_iff.mp)

theorem lead_of_not_ends (hne : dir.toList ≠ []) (hlast : dir.toList.getLast? ≠ some '/') :
    lead dir = dir.toList ++ ['/'] :=
  if_neg (not_or.mpr ⟨fun hempty => hne (String.toList_eq_nil_iff.mpr hempty), hlast⟩)

/-- A directory begins as the paths in it do, so it stands on its own if they do. -/
theorem head?_lead (dir : String) : (lead dir).head? = dir.toList.head? := by
  by_cases h : dir.toList = [] ∨ dir.toList.getLast? = some '/'
  · rw [lead_of_ends h]
  · obtain ⟨hne, hlast⟩ := not_or.mp h
    rw [lead_of_not_ends hne hlast, List.head?_append, Option.or_of_isSome (List.isSome_head?.mpr hne)]

/-- It is nothing, or it ends in a slash. -/
theorem lead_ends (dir : String) : lead dir = [] ∨ (lead dir).getLast? = some '/' := by
  by_cases h : dir.toList = [] ∨ dir.toList.getLast? = some '/'
  · rwa [lead_of_ends h]
  · obtain ⟨hne, hlast⟩ := not_or.mp h
    rw [lead_of_not_ends hne hlast]
    exact .inr List.getLast?_concat

/-! ## Joining

Whether a joined path stands on its own, what it leads with, and that it is not empty. -/

/-- A joined path stands on its own if either of the two does. -/
theorem isAbsolute_join (dir path : String) : isAbsolute (join dir path) = (isAbsolute path || isAbsolute dir) := by
  rcases hpath : isAbsolute path with _ | _
  · have hslash : path.toList.head? ≠ some '/' := of_decide_eq_false hpath
    rw [isAbsolute, isAbsolute, toList_join hpath, List.head?_append, head?_lead, Bool.false_or]
    rcases dir.toList.head? with _ | c
    · exact decide_eq_decide.mpr (iff_of_false hslash (by simp))
    · rfl
  · rw [join_of_isAbsolute hpath, hpath, Bool.true_or]

/-- What is in a directory in another one begins with what is in the one, after what is in the other. -/
theorem lead_join (h : isAbsolute path = false) : lead (join dir path) = lead dir ++ lead path := by
  have hjoin : (join dir path).toList = lead dir ++ path.toList := toList_join h
  by_cases hne : path.toList = []
  · rw [hne, List.append_nil] at hjoin
    rw [lead_of_ends (hjoin ▸ lead_ends dir), hjoin, lead_of_ends (.inl hne), hne, List.append_nil]
  · have hlast : (join dir path).toList.getLast? = path.toList.getLast? := by
      rw [hjoin, List.getLast?_append, Option.or_of_isSome (by simpa using hne)]
    by_cases hends : path.toList.getLast? = some '/'
    · rw [lead_of_ends (.inr (hlast.trans hends)), lead_of_ends (.inr hends), hjoin]
    · have hjoinne : (join dir path).toList ≠ [] := by
        rw [hjoin]
        exact List.append_ne_nil_of_right_ne_nil _ hne
      rw [lead_of_not_ends hjoinne (hlast ▸ hends), lead_of_not_ends hne hends, hjoin, List.append_assoc]

/-- A path in a directory in another one. -/
theorem join_join (a b path : String) : join a (join b path) = join (join a b) path := by
  rcases hpath : isAbsolute path with _ | _
  · rcases hb : isAbsolute b with _ | _
    · have hjoin : isAbsolute (join b path) = false := by rw [isAbsolute_join, hpath, hb, Bool.or_false]
      rw [← String.toList_inj, toList_join hjoin, toList_join hpath, toList_join hpath, lead_join hb, List.append_assoc]
    · have hjoin : isAbsolute (join b path) = true := by rw [isAbsolute_join, hb, Bool.or_true]
      rw [join_of_isAbsolute hjoin, join_of_isAbsolute hb]
  · rw [join_of_isAbsolute hpath, join_of_isAbsolute hpath, join_of_isAbsolute hpath]

/-- Joining makes no path empty. -/
theorem join_ne_empty (h : path ≠ "") (dir : String) : join dir path ≠ "" := by
  rcases hpath : isAbsolute path with _ | _
  · intro hjoin
    have hempty : lead dir ++ path.toList = [] := by rw [← toList_join hpath, hjoin, String.toList_empty]
    exact h (String.toList_eq_nil_iff.mp (List.append_eq_nil_iff.mp hempty).2)
  · rwa [join_of_isAbsolute hpath]

/-- A path as it is in a directory. -/
structure IsIn (dir path joined : String) : Prop where
  /-- one that stands on its own stays as it is -/
  absolute (h : isAbsolute path = true) : joined = path
  /-- any other comes after the directory and a slash, unless the directory is empty or ends in one -/
  relative (h : isAbsolute path = false) : joined = dir ++ path ∧ (dir = "" ∨ dir.toList.getLast? = some '/') ∨
    joined = dir ++ "/" ++ path ∧ dir ≠ "" ∧ dir.toList.getLast? ≠ some '/'

theorem isIn_join (dir path : String) : IsIn dir path (join dir path) where
  absolute h := join_of_isAbsolute h dir
  relative h := by
    rw [join, h]
    by_cases hdir : dir = "" ∨ dir.toList.getLast? = some '/'
    · exact .inl ⟨by simp [hdir], hdir⟩
    · exact .inr ⟨by simp [hdir], not_or.mp hdir⟩

end Path

namespace Config

/-- To join a configuration twice is to join it to the one directory in the other. -/
theorem relativeTo_relativeTo (c : Config) (a b : String) :
    (c.relativeTo a).relativeTo b = c.relativeTo (Path.join b a) := by
  have hthemes : ((c.relativeTo a).relativeTo b).themes = (c.relativeTo (Path.join b a)).themes := by
    simp only [relativeTo, List.map_map]
    exact List.map_congr_left fun theme _ => congrArg (theme.1, ·) (Path.join_join b a theme.2)
  exact congrArg₂ (Config.mk · · c.defaultTheme c.snippetLimit) (Path.join_join b a c.defaultRoot) hthemes

/-- Joining it once more to a directory that stands on its own changes nothing. -/
theorem relativeTo_twice {a : String} (h : Path.isAbsolute a = true) (c : Config) :
    (c.relativeTo a).relativeTo a = c.relativeTo a := by
  rw [relativeTo_relativeTo, Path.join_of_isAbsolute h]

/-- To join a configuration to directories is an action of joining these. -/
theorem relativeTo_action (c : Config) (a b : String) :
    (c.relativeTo a).relativeTo b = c.relativeTo (Path.join b a) ∧
    (Path.isAbsolute a = true → (c.relativeTo a).relativeTo a = c.relativeTo a) ∧
    Path.IsIn a c.defaultRoot (c.relativeTo a).defaultRoot ∧
    List.Forall₂ (fun theme joined => joined.1 = theme.1 ∧ Path.IsIn a theme.2 joined.2)
      c.themes (c.relativeTo a).themes ∧
    (c.relativeTo a).defaultTheme = c.defaultTheme ∧ (c.relativeTo a).snippetLimit = c.snippetLimit := by
  refine ⟨c.relativeTo_relativeTo a b, fun h => relativeTo_twice h c, Path.isIn_join a _, ?_, rfl, rfl⟩
  rw [relativeTo, List.forall₂_map_right_iff, List.forall₂_same]
  exact fun theme _ => ⟨rfl, Path.isIn_join a theme.2⟩

/-- A configuration joined twice to a directory that stands on its own. -/
theorem relativeTo_action_absolute :
    let c : Config := ⟨"templates", [("dark", "/srv/dark"), ("plain", "")], some "dark", Site.defaultSnippetLimit⟩
    Path.isAbsolute "/etc/site" = true ∧
    (c.relativeTo "/etc/site").relativeTo "/etc/site" = c.relativeTo "/etc/site" ∧
    c.relativeTo "/etc/site" =
      { c with
        defaultRoot := "/etc/site/templates"
        themes := [("dark", "/srv/dark"), ("plain", "/etc/site/")] } := by
  have habsolute : Path.isAbsolute "/etc/site" = true := by decide
  exact ⟨habsolute, (relativeTo_action _ "/etc/site" "").2.1 habsolute, by decide +kernel⟩

end Config

end ThemedPages
