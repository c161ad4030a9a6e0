import ComponentTags.Failure.Basic
import ComponentTags.Glob.Search

/-!
The files that inputs name. Each input names a file or is a pattern; a file that several inputs name
counts once, where it was named first.
-/

namespace ComponentTags.CommandLine

def filesOf (disk : Disk) (input : String) : Except Failure (List Path) := do
  let named ←
    if Glob.isPattern input then
      match Glob.Pattern.parse input with
      | .error fault => .error (Fault.invalidPattern input fault.text)
      | .ok pattern => pure (Glob.search disk pattern)
    else pure [⟨input⟩]
  match named.filter disk.isFile with
  | [] => .error (Fault.noInput input)
  | files => return files

/-- The paths without those that lead the same way as an earlier one. -/
def distinctPaths (seen : List (List PathStep)) : List Path → List Path
  | [] => []
  | path :: paths =>
      if seen.contains path.steps then distinctPaths seen paths
      else path :: distinctPaths (path.steps :: seen) paths

def filesOfAll (disk : Disk) (inputs : List String) : Except Failure (List Path) := do
  return distinctPaths [] (← inputs.mapM (filesOf disk)).flatten

end ComponentTags.CommandLine
