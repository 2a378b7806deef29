import ThemedPages.Program

/-!
# The command

Runs the program on the files of the machine. The program is asked again with the files it looked for until there is
no file among them that was not read.
-/

namespace ThemedPages

/-- What is known of the files. -/
abbrev Known := ByName (Except Disk.Failure Bytes)

/-- The files that are known, as a file system that has no others. -/
def Known.disk (known : Known) : Disk where
  read path := (known.get? path).getD (.error .missing)
  files := known.length
  bounded dir := by
    refine ⟨known.map fun file => String.ofList (file.1.toList.drop (Path.lead dir).length), by simp, ?_⟩
    intro path hpath hthere
    rcases h : known.lookup (Path.ofTemplate dir path) with _ | content
    · simp [ByName.get?, h, Disk.isThere] at hthere
    · obtain ⟨before, after, hknown, -⟩ := List.lookup_eq_some_iff.mp h
      have hmem : (Path.ofTemplate dir path, content) ∈ known := by simp [hknown]
      exact List.mem_map.mpr ⟨_, hmem, Disk.ofList_drop_ofTemplate hpath dir⟩

/-- Reads a file. -/
def readFile (path : String) : IO (Except Disk.Failure Bytes) := do
  if let some failure := Disk.fault? path then return .error failure
  try
    return .ok (← IO.FS.readBinFile path).toList
  catch
    | .noFileOrDirectory .. => return .error .missing
    | .inappropriateType _ code _ => return .error (if code = 21 then .isDirectory else .notDirectory)
    | .invalidArgument .. => return .error .tooLong
    | .permissionDenied .. => return .error (.broken "Permission denied (os error 13)")
    | e => return .error (.broken (toString e))

/-- The answer to a command line, reading files as they are looked for. -/
partial def answerFrom (known : Known) (words : List String) : IO Program.Answer := do
  let answer := Program.answer known.disk words
  match answer.reads.find? fun path => (known.get? path).isNone with
  | none => return answer
  | some path => answerFrom (known.insert path (← readFile path)) words

end ThemedPages

/-- Answers the command line. -/
def main (words : List String) : IO UInt32 := do
  let answer ← ThemedPages.answerFrom [] words
  IO.print answer.stdout
  IO.eprint answer.stderr
  return answer.exit.toUInt32
