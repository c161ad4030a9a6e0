import ComponentTags.Disk.Basic
import ComponentTags.Glob.Pattern

/-!
Looking for what fits a pattern. The entries of a directory are taken in order, each with all below it
before the next one; names without wildcards are looked up without a look at their neighbours.
-/

namespace ComponentTags

def Disk.children (disk : Disk) (path : Path) : List String :=
  match disk.locate path with
  | .error _ => []
  | .ok directory =>
      (disk.entries.toList.filterMap fun (spot, _) =>
        match spot with
        | name :: parent => if parent = directory then some name else none
        | [] => none).mergeSort (· ≤ ·)

namespace Glob

/-- The path of what has a name in a directory; in the working directory that is the name alone. -/
def entryPath (directory : Path) (name : String) : Path :=
  if directory.steps = [.here] then ⟨name⟩ else directory / name

/-- The names of a directory itself and of the one around it that fit a component with a dot in front. -/
def specialNames : Component → List String
  | .name (.literal '.' :: tokens) =>
      ["..", "."].filter fun name => fits (.literal '.' :: tokens) name.toList
  | _ => []

mutual

/-- What fits the components from a directory on; it looks at most `depth` directories deep. -/
def fill (disk : Disk) (pattern : Pattern) (components : List Component) (depth : Nat)
    (path : Path) : List Path :=
  match components with
  | [] => []
  | component :: rest =>
      match component.literal? with
      | some name =>
          let next := entryPath path name
          let isThere :=
            if name = "." || name = ".." then disk.isDirectory path else disk.holds next
          if isThere then advance disk pattern rest next else []
      | none =>
          if disk.isDirectory path then
            (specialNames component).flatMap (fun name => advance disk pattern rest (path / name))
              ++ (disk.children path).flatMap fun name =>
                visit disk pattern (component :: rest) depth (entryPath path name)
          else
            []
termination_by (components.length, 3 * depth + 2)

/-- What fits the rest of the components from a path on that fits those before. -/
def advance (disk : Disk) (pattern : Pattern) (rest : List Component) (path : Path) : List Path :=
  if rest.isEmpty then
    if pattern.directoriesOnly && !disk.isDirectory path then [] else [path]
  else
    fill disk pattern rest (disk.entries.size + 1) path
termination_by (rest.length, 3 * disk.entries.size + 6)

def visit (disk : Disk) (pattern : Pattern) (components : List Component) (depth : Nat)
    (path : Path) : List Path :=
  match components with
  | .directories :: rest =>
      if disk.isDirectory path then
        (if rest.isEmpty then [path] else matchName disk pattern rest path)
          ++ match depth with
            | 0 => []
            | depth + 1 => fill disk pattern (.directories :: rest) depth path
      else matchName disk pattern rest path
  | components => matchName disk pattern components path
termination_by (components.length, 3 * depth + 1)

def matchName (disk : Disk) (pattern : Pattern) (components : List Component) (path : Path) :
    List Path :=
  match components with
  | .name tokens :: rest =>
      match path.fileName? with
      | none => []
      | some name => if fits tokens name.toList then advance disk pattern rest path else []
  | _ => []
termination_by (components.length, 0)

end

def search (disk : Disk) (pattern : Pattern) : List Path :=
  fill disk pattern pattern.components (disk.entries.size + 1)
    ⟨if pattern.absolute then "/" else "."⟩

end Glob

end ComponentTags
