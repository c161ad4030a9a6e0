import ComponentTags.Disk.Basic

/-!
Replacing files. A file is written under a temporary name beside its own and renamed, so that nobody
reads it half written; a file that holds the right bytes is not touched.
-/

namespace ComponentTags

/-- The calls in which the replacement of a file may be refused, and how far writing got. -/
inductive Mishap where
  | creating (fault : IoFault)
  | writing (written : Nat) (fault : IoFault)
  | syncing (fault : IoFault)
  | renaming (fault : IoFault)
deriving DecidableEq, Repr

/-- How the replacement of a file went: the disks on the way, then the last one and the outcome. -/
structure Replacement where
  passed : List Disk
  disk : Disk
  outcome : Except Failure Unit

namespace Disk

def ensureDirectory (disk : Disk) (path : Path) : Disk × Except Failure Unit :=
  if disk.holds path then
    (disk,
      if disk.isDirectory path then .ok ()
      else .error (.of (.plain ("Path exists but is not a directory: " ++ path.text))))
  else
    match disk.createAll path with
    | (disk, .ok ()) => (disk, .ok ())
    | (disk, .error source) =>
        (disk, .error (.of (.file
          { operation := .creatingDirectory, path, purpose := "creating an output directory"
            caller := "ensure_dir", source })))

def ensureParent (disk : Disk) (path : Path) : Disk × Except Failure Unit :=
  match path.parent? with
  | none => (disk, .ok ())
  | some parent => if parent.text = "" then (disk, .ok ()) else disk.ensureDirectory parent

/-- The name of a temporary file; `mark` tells it from the others for the same file. -/
def temporaryPath (mark : String) (path : Path) : Path :=
  path.withFileName ("." ++ path.fileName?.getD "artifact" ++ "." ++ mark ++ ".tmp")

def rename (disk : Disk) (source : Spot) (content : List UInt8) (path : Path) :
    Except IoFault Disk :=
  let target := withoutSlashes path
  match target.parts.getLast? with
  | none | some "" | some "." | some ".." => .error .busy
  | _ =>
      match disk.locate target with
      | .error fault => .error fault
      | .ok spot =>
          if target ≠ path then .error .notDirectory
          else if disk.entry? spot = some .directory then .error .isDirectory
          else .ok ((disk.erase source).put spot (.file content))

def replaceBeside (disk : Disk) (mishap : Option Mishap) (mark : String) (path : Path)
    (content : List UInt8) : Replacement :=
  let temporary := temporaryPath mark path
  let refused (path : Path) (purpose : String) (source : IoFault) : Except Failure Unit :=
    .error (.of (.file { operation := .writing, path, purpose, caller := "atomic_write", source }))
  let created : Except IoFault (Disk × Spot) :=
    match mishap with
    | some (.creating fault) => .error fault
    | _ => disk.createFile temporary
  match created with
  | .error fault =>
      { passed := [disk], disk, outcome := refused temporary "creating a temporary file" fault }
  | .ok (started, spot) =>
      let written := started.put spot (.file content)
      match mishap with
      | some (.writing length fault) =>
          { passed := [disk, started]
            disk := started.put spot (.file (content.take length))
            outcome := refused temporary "writing a temporary file" fault }
      | some (.syncing fault) =>
          { passed := [disk, started]
            disk := written
            outcome := refused temporary "writing a temporary file" fault }
      | _ =>
          let renamed : Except IoFault Disk :=
            match mishap with
            | some (.renaming fault) => .error fault
            | _ => written.rename spot content path
          match renamed with
          | .error fault =>
              { passed := [disk, started, written]
                disk := written.erase spot
                outcome := refused path "replacing the target with the temporary file" fault }
          | .ok final => { passed := [disk, started, written], disk := final, outcome := .ok () }

def replace (disk : Disk) (mishap : Option Mishap) (mark : String) (path : Path)
    (content : List UInt8) : Replacement :=
  match disk.ensureParent path with
  | (disk, .error failure) => { passed := [], disk, outcome := .error failure }
  | (disk, .ok ()) => disk.replaceBeside mishap mark path content

/-- The mark of temporary files when nothing else writes. -/
def plainMark : String :=
  String.ofList (List.replicate 32 '0')

def write (disk : Disk) (path : Path) (content : List UInt8) : Disk × Except Failure Unit :=
  let replacement := disk.replace none plainMark path content
  (replacement.disk, replacement.outcome)

/-- Writes a text unless the file holds it already, and says whether it was written. -/
def writeChanged (disk : Disk) (path : Path) (text : String) : Disk × Except Failure Bool :=
  let content := Utf8.encode text.toList
  let written :=
    match disk.write path content with
    | (disk, .ok ()) => (disk, .ok true)
    | (disk, .error failure) => (disk, .error failure)
  match disk.read path with
  | .ok found => if found = content then (disk, .ok false) else written
  | .error source =>
      if source.kind = .missing then written
      else
        (disk, .error (.of (.file
          { operation := .reading, path, purpose := "comparing existing content"
            caller := "write_if_changed", source })))

/-- Writes texts that differ from what their files hold, all that can be; counts the files written. -/
def writeAll (disk : Disk) : List (Path × String) → Disk × Except Failure Nat
  | [] => (disk, .ok 0)
  | (path, text) :: rest =>
      let (disk, first) := disk.writeChanged path text
      let (disk, others) := disk.writeAll rest
      (disk, do
        let written ← first
        let count ← others
        return (if written then 1 else 0) + count)

end Disk

end ComponentTags
