import ThemedPages.Disk

/-!
# Trees of files

A file system in memory: files and directories under their places, a place being the names on the way down to it. A
path is followed name by name from the root or from the current directory, through directories only.
-/

namespace ThemedPages

/-- Files and directories, and the directory that paths begin in. -/
structure FileTree where
  /-- what the files hold -/
  files : List (List String × Bytes)
  /-- the directories -/
  directories : List (List String)
  /-- where paths begin that do not begin at the root -/
  current : List String

namespace FileTree

/-- The directories on the way down to a place, the place included. -/
def wayDown (place : List String) : List (List String) := (List.range (place.length + 1)).map place.take

/-- An empty tree, but for the directories down to the current one. -/
def ofCurrent (current : List String) : FileTree := ⟨[], wayDown current, current⟩

/-- The names in a path, with nothing for repeated slashes and single points. -/
def names (path : String) : List String :=
  (((splitAtChar '/' path.toList).filter fun part => !Path.staysPut part).map String.ofList)

/-- The places that some names lead through from a place, both ends included. A name `..` leads up. -/
def stops (place : List String) : List String → List (List String)
  | [] => [place]
  | name :: rest => place :: stops (if name = ".." then place.dropLast else place ++ [name]) rest

/-- The place that a path begins in. -/
def start (tree : FileTree) (path : String) : List String := if Path.isAbsolute path then [] else tree.current

/-- There is a file at a place. -/
def isFile (tree : FileTree) (place : List String) : Bool := (tree.files.lookup place).isSome

/-- There is a directory at a place. -/
def isDirectory (tree : FileTree) (place : List String) : Bool := tree.directories.contains place

/-- The tree with a directory at a path, and at all that the path leads through. A file in the way ends it there. -/
def makeDirectory (tree : FileTree) (path : String) : FileTree :=
  let places := (stops (tree.start path) (names path)).takeWhile fun place => !tree.isFile place
  { tree with directories := tree.directories ++ places.filter fun place => !tree.isDirectory place }

/-- Where following the parts of a path leads from a place. -/
def walk (tree : FileTree) : List (List Char) → List String → Except Disk.Failure (List String)
  | [], place => .ok place
  | part :: rest, place =>
    if !tree.isDirectory place then if tree.isFile place then .error .notDirectory else .error .missing
    else if Path.staysPut part then walk tree rest place
    else if part = ['.', '.'] then walk tree rest place.dropLast
    else
      let name := String.ofList part
      if Disk.longestName < name.utf8ByteSize then .error .tooLong else walk tree rest (place ++ [name])

/-- The place that a path leads to, which is in a directory but may be empty. -/
def placeOf (tree : FileTree) (path : String) : Except Disk.Failure (List String) :=
  match Disk.fault? path with
  | some failure => .error failure
  | none => tree.walk (splitAtChar '/' path.toList) (tree.start path)

/-- What the file at a path holds. -/
def read (tree : FileTree) (path : String) : Except Disk.Failure Bytes := do
  let place ← tree.placeOf path
  match tree.files.lookup place with
  | some content => .ok content
  | none => .error (if tree.isDirectory place then .isDirectory else .missing)

/-- The tree with a file at a path, and the directories that the path leads through; or only with those, if there can
be no file. -/
def writeFile (tree : FileTree) (path : String) (content : Bytes) : FileTree :=
  let tree := tree.makeDirectory ((Path.parent? path).getD "")
  match tree.placeOf path with
  | .ok place =>
    if tree.isDirectory place then tree
    else { tree with files := (place, content) :: tree.files.filter (·.1 ≠ place) }
  | .error _ => tree

/-- The tree without the file at a path, if there is one. -/
def removeFile (tree : FileTree) (path : String) : FileTree :=
  match tree.placeOf path with
  | .ok place => { tree with files := tree.files.filter (·.1 ≠ place) }
  | .error _ => tree

/-! ## Templates in a tree

All the templates that a directory has are at different places, so that there are no more of them than files. -/

variable {tree : FileTree}

theorem walk_append (before after : List (List Char)) (place : List String) :
    tree.walk (before ++ after) place = tree.walk before place >>= tree.walk after := by
  induction before generalizing place with
  | nil => rfl
  | cons part rest ih =>
    simp only [List.cons_append, walk]
    split <;> (try split) <;> (try split) <;> (try split) <;> first | rfl | exact ih _

/-- Parts that lead down lead to the place below. -/
theorem eq_of_walk_steps {parts : List (List Char)} (h : ∀ part ∈ parts, isStep part = true)
    {place below : List String} (hwalk : tree.walk parts place = .ok below) :
    below = place ++ parts.map String.ofList := by
  induction parts generalizing place with
  | nil => simpa [walk] using hwalk.symm
  | cons part rest ih =>
    have hpart := h part List.mem_cons_self
    have hstays : Path.staysPut part = false ∧ part ≠ ['.', '.'] := by
      simp_all [isStep, Path.staysPut]
    simp only [walk, hstays.1, hstays.2, Bool.false_eq_true, if_false] at hwalk
    split at hwalk
    · split at hwalk <;> cases hwalk
    · split at hwalk
      · cases hwalk
      · simpa using ih (fun q hq => h q (List.mem_cons_of_mem _ hq)) hwalk

/-- The parts of the paths in a directory begin with the same parts. -/
theorem exists_splitAtChar_ofTemplate (dir : String) : ∃ before, ∀ path, isTemplatePath path = true →
    splitAtChar '/' (Path.ofTemplate dir path).toList = before ++ splitAtChar '/' path.toList := by
  obtain hlead | ⟨chars, hlead⟩ : Path.lead dir = [] ∨ ∃ chars, Path.lead dir = chars ++ ['/'] := by
    by_cases hdir : dir = ""
    · exact .inl (by simp [Path.lead, hdir])
    · by_cases hlast : dir.toList.getLast? = some '/'
      · obtain ⟨chars, hchars⟩ := List.getLast?_eq_some_iff.mp hlast
        exact .inr ⟨chars, by simp [Path.lead, hchars]⟩
      · exact .inr ⟨dir.toList, by simp [Path.lead, hlast, hdir]⟩
  · exact ⟨[], fun path hpath => by simp [Disk.toList_ofTemplate hpath, hlead]⟩
  · refine ⟨splitAtChar '/' chars, fun path hpath => ?_⟩
    rw [Disk.toList_ofTemplate hpath, hlead, ← splitAtChar_append_cons]
    simp

/-- The paths in a directory begin where the directory's own does. -/
theorem start_ofTemplate {path : String} (h : isTemplatePath path = true) (dir : String) :
    tree.start (Path.ofTemplate dir path) = tree.start dir := by
  simp only [start, Disk.isAbsolute_ofTemplate h]

/-- A path that leads nowhere leads to no file. -/
theorem not_isThere_of_walk {parts : List (List Char)} {place : List String} {failure : Disk.Failure}
    (h : tree.walk parts place = .error failure) : Disk.isThere (.error failure) = false := by
  induction parts generalizing place with
  | nil => cases h
  | cons part rest ih =>
    simp only [walk] at h
    split at h
    · split at h <;> cases h <;> rfl
    · split at h
      · exact ih h
      · split at h
        · exact ih h
        · split at h
          · cases h
            rfl
          · exact ih h

theorem not_isThere_of_placeOf {path : String} {failure : Disk.Failure}
    (h : tree.placeOf path = .error failure) : Disk.isThere (.error failure) = false := by
  rw [placeOf] at h
  split at h
  · next fault hfault =>
    cases h
    rw [Disk.fault?] at hfault
    split at hfault
    · cases hfault
      rfl
    · split at hfault
      · cases hfault
        rfl
      · split at hfault <;> cases hfault
        rfl
  · exact not_isThere_of_walk h

/-- There is a file at a path only if it is the file at the place that the path leads to. -/
theorem exists_file_of_isThere {path : String} (h : Disk.isThere (tree.read path) = true) :
    ∃ place content, tree.walk (splitAtChar '/' path.toList) (tree.start path) = .ok place ∧
      (place, content) ∈ tree.files := by
  rcases hplace : tree.placeOf path with failure | place
  · rw [read, hplace] at h
    exact absurd h (by simp [bind, Except.bind, not_isThere_of_placeOf hplace])
  · rcases hfile : tree.files.lookup place with _ | content
    · simp only [read, hplace, hfile, bind, Except.bind] at h
      split at h <;> simp [Disk.isThere] at h
    · obtain ⟨before, after, hfiles, -⟩ := List.lookup_eq_some_iff.mp hfile
      refine ⟨place, content, ?_, by simp [hfiles]⟩
      rw [placeOf] at hplace
      split at hplace
      · cases hplace
      · exact hplace

/-- The tree as a file system. -/
def disk (tree : FileTree) : Disk where
  read := tree.read
  files := tree.files.length
  bounded dir := by
    obtain ⟨before, hbefore⟩ := exists_splitAtChar_ofTemplate dir
    rcases hbase : tree.walk before (tree.start dir) with failure | base
    · refine ⟨[], by simp, fun path hpath hthere => ?_⟩
      obtain ⟨place, content, hwalk, -⟩ := exists_file_of_isThere hthere
      rw [hbefore path hpath, start_ofTemplate hpath, walk_append, hbase] at hwalk
      cases hwalk
    · refine ⟨tree.files.map fun file =>
        String.ofList (['/'].intercalate ((file.1.drop base.length).map String.toList)), by simp, ?_⟩
      intro path hpath hthere
      obtain ⟨place, content, hwalk, hfile⟩ := exists_file_of_isThere hthere
      rw [hbefore path hpath, start_ofTemplate hpath, walk_append, hbase] at hwalk
      obtain rfl := eq_of_walk_steps (fun part => isStep_of_mem hpath) hwalk
      exact List.mem_map.mpr ⟨_, hfile, by simp [Function.comp_def, intercalate_splitAtChar]⟩

end FileTree

end ThemedPages
