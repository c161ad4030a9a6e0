import ComponentTags.CommandLine.Help
import ComponentTags.CommandLine.Running
import ComponentTags.Failure.Advice

/-!
The program. It looks at its working directory, runs on what it saw, and then writes what has changed.
It reaches no endpoint, so every component that is not there yet becomes a message.
-/

namespace ComponentTags.Main

open CommandLine

def spotOf (path : String) : Spot :=
  ((Path.parts ⟨path⟩).filter (· ≠ "")).reverse

def withDirectory (disk : Disk) : Spot → Disk
  | [] => disk
  | name :: spot => (withDirectory disk spot).put (name :: spot) .directory

partial def survey (disk : Disk) (entry : IO.FS.DirEntry) : IO Disk := do
  let spot := spotOf entry.path.toString
  if ← entry.path.isDir then
    (← entry.path.readDir).foldlM survey (disk.put spot .directory)
  else
    return disk.put spot (.file [])

def fillIn (disk : Disk) (path : Path) : IO Disk := do
  match disk.locate path with
  | .error _ => return disk
  | .ok spot =>
      match disk.entry? spot with
      | some (.file _) =>
          let content ← IO.FS.readBinFile (spotPath spot).text
          return disk.put spot (.file content.toList)
      | _ => return disk

/-- Writes what is at a place, unless it was there before. -/
def store (before : Disk) (spot : Spot) (entry : DiskEntry) : IO Unit := do
  if before.entry? spot ≠ some entry then
    match entry with
    | .directory => IO.FS.createDirAll (spotPath spot).text
    | .file content =>
        let temporary := (spotPath ((spot.headD "" ++ ".tmp") :: spot.tail)).text
        IO.FS.writeBinFile temporary ⟨content.toArray⟩
        IO.FS.rename temporary (spotPath spot).text

def showConsole (invocation : Invocation) (console : Console) : IO Unit := do
  IO.print console.output
  if invocation.showsWarnings then
    for warning in console.warnings do
      IO.eprintln ("WARN " ++ warning.message)
  IO.eprint console.notes

def perform (invocation : Invocation) : IO UInt32 := do
  let directory ← IO.currentDir
  let workingDirectory := spotOf directory.toString
  let start := withDirectory { Disk.empty with workingDirectory } workingDirectory
  let found ← (← directory.readDir).foldlM survey start
  let found ← fillIn found invocation.configuration
  let found ← (invocation.filesRead found).foldlM fillIn found
  match invocation.run .unreachable found with
  | .error _ =>
      IO.eprintln "error: a source ends inside an expression"
      return 101
  | .ok (console, outcome) =>
      for (spot, entry) in console.disk.entries.toList.mergeSort (·.1.length ≤ ·.1.length) do
        store found spot entry
      showConsole invocation console
      match outcome with
      | .ok () => return 0
      | .error failure =>
          IO.eprint failure.advice.terminalText
          return 1

end ComponentTags.Main

def main (arguments : List String) : IO UInt32 := do
  match ComponentTags.CommandLine.Invocation.parse arguments with
  | .ok invocation => ComponentTags.Main.perform invocation
  | .error stop =>
      if stop.exitCode = 0 then IO.println stop.text else IO.eprintln stop.text
      return stop.exitCode.toUInt32
