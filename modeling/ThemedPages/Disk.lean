import ThemedPages.Catalog
import ThemedPages.Path

/-!
# Files

A file system at one moment, seen through the reading of its files, and directories of template sources in it. A
template that is not in a directory, or whose path leads to a directory or through a file or can not be a path at all,
is simply not there; a file that is there and can not be read, or holds no text, is an error.
-/

namespace ThemedPages

/-- Why a file can not be read. -/
inductive Disk.Failure where
  /-- there is nothing at the path -/
  | missing
  /-- the path leads through something that is no directory -/
  | notDirectory
  /-- there is a directory at the path -/
  | isDirectory
  /-- the path has a character in it that no name can have -/
  | hasNul
  /-- the path or a name in it is too long -/
  | tooLong
  /-- there is a file at the path, but something is wrong -/
  | broken (reason : String)
  deriving DecidableEq, Repr

/-- What is said about the failure. -/
def Disk.Failure.message : Disk.Failure → String
  | missing => "No such file or directory (os error 2)"
  | notDirectory => "Not a directory (os error 20)"
  | isDirectory => "Is a directory (os error 21)"
  | hasNul => "file name contained an unexpected NUL byte"
  | tooLong => "File name too long (os error 36)"
  | broken reason => reason

/-- There is a file where this comes of reading, though it may not be possible to read it. -/
def Disk.isThere : Except Disk.Failure Bytes → Bool
  | .ok _ | .error (.broken _) => true
  | _ => false

/-- A file system at one moment. -/
structure Disk where
  /-- what the file at a path holds -/
  read : String → Except Disk.Failure Bytes
  /-- how many files there are -/
  files : Nat
  /-- there are no more of them in any directory -/
  bounded : ∀ dir, ∃ paths : List String, paths.length ≤ files ∧ ∀ path, isTemplatePath path = true →
    Disk.isThere (read (Path.ofTemplate dir path)) = true → path ∈ paths

namespace Disk

/-! ## Files of templates -/

theorem toList_ofTemplate {path : String} (h : isTemplatePath path = true) (dir : String) :
    (Path.ofTemplate dir path).toList = Path.lead dir ++ path.toList := by
  refine Path.toList_ofTemplate fun part hpart => ?_
  have hstep := isStep_of_mem h hpart
  rintro rfl
  simp [isStep] at hstep

/-- The template path that the path of a file in a directory was made from. -/
theorem ofList_drop_ofTemplate {path : String} (h : isTemplatePath path = true) (dir : String) :
    String.ofList ((Path.ofTemplate dir path).toList.drop (Path.lead dir).length) = path := by
  rw [toList_ofTemplate h, List.drop_left, String.ofList_toList]

/-- The path of the file begins where that of the directory does. -/
theorem isAbsolute_ofTemplate {path : String} (h : isTemplatePath path = true) (dir : String) :
    Path.isAbsolute (Path.ofTemplate dir path) = Path.isAbsolute dir := by
  rw [Path.isAbsolute, Path.isAbsolute, toList_ofTemplate h]
  rcases hdir : dir.toList with _ | ⟨d, rest⟩
  · obtain rfl : dir = "" := by simpa using hdir
    have hpath : path.toList.head? ≠ some '/' := by
      intro hslash
      obtain ⟨rest, hrest⟩ : ∃ rest, path.toList = '/' :: rest := by
        rcases hp : path.toList with _ | ⟨d, rest⟩ <;> simp_all
      have hempty : isStep [] = true := isStep_of_mem h (by simp [hrest, splitAtChar])
      simp [isStep] at hempty
    simpa [Path.lead] using hpath
  · have hne : dir ≠ "" := by
      rintro rfl
      simp at hdir
    by_cases hlast : dir.toList.getLast? = some '/' <;> simp_all [Path.lead]

/-! ## Reading -/

/-- How many bytes a path may have. -/
def longestPath : Nat := 4095

/-- How many bytes a name in a path may have. -/
def longestName : Nat := 255

/-- Why there can be no file at a path, whatever files there are. -/
def fault? (path : String) : Option Failure :=
  if path.toList.contains (Char.ofNat 0) then some .hasNul
  else if path = "" then some .missing
  else if longestPath < path.utf8ByteSize then some .tooLong
  else none

/-- What is said about a file that holds no text. -/
def notText : String := "stream did not contain valid UTF-8"

/-- The text in a file, or what is wrong with it. -/
def readText (disk : Disk) (path : String) : Except String String :=
  match disk.read path with
  | .error failure => .error failure.message
  | .ok content =>
    match Utf8.read? content with
    | some text => .ok text
    | none => .error notText

/-- The root of the templates in a directory. -/
def root (disk : Disk) (dir : String) : Root where
  description := dir
  load path :=
    match disk.read (Path.ofTemplate dir path) with
    | .ok content =>
      match Utf8.read? content with
      | some text => .ok (some text)
      | none => .error notText
    | .error (.broken reason) => .error reason
    | .error _ => .ok none
  extent := disk.files
  bounded := by
    obtain ⟨paths, hlength, hpaths⟩ := disk.bounded dir
    refine ⟨paths, hlength, fun path hpath hload => hpaths path hpath ?_⟩
    rcases h : disk.read (Path.ofTemplate dir path) with failure | content
    · cases failure <;> simp_all [isThere]
    · rfl

end Disk

end ThemedPages
