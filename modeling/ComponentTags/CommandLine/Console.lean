import ComponentTags.Project.Loading
import ComponentTags.Project.Session

/-!
What a command does to the world: to the disk, to the terminal, and to the log.
-/

namespace ComponentTags.CommandLine

/-- The disk, what a command printed and noted beside it, and its log. -/
structure Console where
  disk : Disk
  output : String
  notes : String
  warnings : List Warning
  requests : List FetchRequest

namespace Console

def start (disk : Disk) : Console :=
  { disk, output := "", notes := "", warnings := [], requests := [] }

def print (console : Console) (text : String) : Console :=
  { console with output := console.output ++ text }

def printLine (console : Console) (line : String) : Console :=
  console.print (line ++ "\n")

def note (console : Console) (line : String) : Console :=
  { console with notes := console.notes ++ line ++ "\n" }

def warn (console : Console) (warnings : List Warning) : Console :=
  { console with warnings := console.warnings ++ warnings }

def loadProject (console : Console) (path : Path) : Console × Except Failure Configuration :=
  match Configuration.loadOrStandard console.disk path with
  | .error failure => (console, .error failure)
  | .ok configuration =>
      (if configuration.components.isEmpty then console.warn [.noComponents path] else console,
        .ok configuration)

end Console

/-- How messages call a path: by its place in a directory, if it lies in there. -/
def shownPath (path base : Path) : String :=
  ((Path.below? base path).getD path).text

end ComponentTags.CommandLine
