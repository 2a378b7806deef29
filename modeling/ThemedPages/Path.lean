import ThemedPages.Text.Split

/-!
# Paths in a file system

Paths as texts with slashes between their parts. Joining a path to a directory keeps both as they are written; a path
that begins with a slash stands on its own.
-/

namespace ThemedPages.Path

/-- The path begins at the root of the file system. -/
def isAbsolute (path : String) : Bool := path.toList.head? = some '/'

/-- The path in a directory. A slash is put between the two unless the directory is empty or ends in one. -/
def join (dir path : String) : String :=
  if isAbsolute path then path
  else if dir = "" ∨ dir.toList.getLast? = some '/' then dir ++ path
  else dir ++ "/" ++ path

/-- The path in a directory of a template: each of its parts is joined in turn. -/
def ofTemplate (dir path : String) : String :=
  ((splitAtChar '/' path.toList).map String.ofList).foldl join dir

/-- What the paths in a directory begin with. -/
def lead (dir : String) : List Char :=
  if dir = "" ∨ dir.toList.getLast? = some '/' then dir.toList else dir.toList ++ ['/']

theorem toList_join {dir path : String} (h : isAbsolute path = false) :
    (join dir path).toList = lead dir ++ path.toList := by
  by_cases hd : dir = "" ∨ dir.toList.getLast? = some '/'
  · simp [join, lead, h, hd]
  · simp [join, lead, h, hd, show "/".toList = ['/'] from by decide]

theorem isAbsolute_ofList {part : List Char} (h : '/' ∉ part) : isAbsolute (String.ofList part) = false := by
  cases part with
  | nil => rfl
  | cons d rest =>
    have hd : d ≠ '/' := by
      rintro rfl
      exact h List.mem_cons_self
    simpa [isAbsolute] using hd

/-- A path in which something follows the last slash begins the paths in it with a slash more. -/
theorem lead_of_append {dir : String} {before part : List Char} (hdir : dir.toList = before ++ part)
    (hne : part ≠ []) (hslash : '/' ∉ part) : lead dir = before ++ part ++ ['/'] := by
  have hlast : dir.toList.getLast? ≠ some '/' := by
    rw [hdir, List.getLast?_append, Option.or_of_isSome (by simpa using hne)]
    exact fun h => hslash (List.mem_of_getLast? h)
  have hdne : dir ≠ "" := by
    rintro rfl
    simp_all
  rw [lead, if_neg (not_or.mpr ⟨hdne, hlast⟩), hdir]

/-- Joining parts in turn is joining them with slashes between. -/
theorem toList_foldl_join {parts : List (List Char)} (hne : parts ≠ [])
    (hparts : ∀ part ∈ parts, part ≠ [] ∧ '/' ∉ part) (dir : String) :
    ((parts.map String.ofList).foldl join dir).toList = lead dir ++ ['/'].intercalate parts := by
  induction parts generalizing dir with
  | nil => exact absurd rfl hne
  | cons part rest ih =>
    obtain ⟨hpart, hslash⟩ := hparts part List.mem_cons_self
    have hjoin : (join dir (String.ofList part)).toList = lead dir ++ part := by
      rw [toList_join (isAbsolute_ofList hslash), String.toList_ofList]
    rcases rest with _ | ⟨next, rest⟩
    · simpa using hjoin
    · rw [List.map_cons, List.foldl_cons, ih (by simp) fun q hq => hparts q (List.mem_cons_of_mem _ hq),
        lead_of_append hjoin hpart hslash, List.intercalate_cons_cons]
      simp

/-- The path of a template is the template's own after what the paths in the directory begin with. -/
theorem toList_ofTemplate {dir path : String} (h : ∀ part ∈ splitAtChar '/' path.toList, part ≠ []) :
    (ofTemplate dir path).toList = lead dir ++ path.toList := by
  rw [ofTemplate, toList_foldl_join (splitAtChar_ne_nil _), intercalate_splitAtChar]
  exact fun part hpart => ⟨h part hpart, not_mem_of_mem_splitAtChar hpart⟩

/-- A part of a path that goes nowhere: nothing, or a single point. -/
def staysPut (part : List Char) : Bool := part = [] || part = ['.']

/-- The directory that a path lies in: the path without its last part that goes anywhere, and without the slashes and
points around that part. None of an empty path and of the root; nothing of a path that has a single part. -/
def parent? (path : String) : Option String :=
  let chars := path.toList
  let isHere := chars = ['.'] ∨ ['.', '/'] <+: chars
  let beginning := if isAbsolute path ∨ isHere then chars.take 1 else []
  let parts := (splitAtChar '/' (chars.drop beginning.length)).reverse
  match parts.dropWhile staysPut with
  | [] => if isHere then some "" else none
  | _ :: before =>
    some (String.ofList (beginning ++ ['/'].intercalate (before.dropWhile staysPut).reverse))

end ThemedPages.Path
