import Std.Data.ExtTreeMap
import ComponentTags.Failure.Basic
import ComponentTags.Text.Utf8

/-!
A disk: directories and the bytes of files. Paths are followed one part after another, so every part
that something comes after must be a directory.
-/

namespace ComponentTags

namespace IoFault

def nothing : IoFault :=
  ⟨.missing, "No such file or directory (os error 2)"⟩

def taken : IoFault :=
  ⟨.existing, "File exists (os error 17)"⟩

/-- A name that the system needs for itself. -/
def busy : IoFault :=
  ⟨.other, "Device or resource busy (os error 16)"⟩

def notDirectory : IoFault :=
  ⟨.other, "Not a directory (os error 20)"⟩

def isDirectory : IoFault :=
  ⟨.other, "Is a directory (os error 21)"⟩

def tooLong : IoFault :=
  ⟨.other, "File name too long (os error 36)"⟩

/-- A path holds a character that ends texts. -/
def severedPath : IoFault :=
  ⟨.other, "file name contained an unexpected NUL byte"⟩

def notText : IoFault :=
  ⟨.invalidData, "stream did not contain valid UTF-8"⟩

def noTree : IoFault :=
  ⟨.other, "failed to create whole tree"⟩

end IoFault

/-- A place on the disk: the names on the way to it, the innermost first. -/
abbrev Spot := List String

def spotPath (spot : Spot) : Path :=
  ⟨"/" ++ joinTexts "/" spot.reverse⟩

inductive DiskEntry where
  | directory
  | file (content : List UInt8)
deriving DecidableEq, Repr, Inhabited

/-- Everything on the disk below its root, and the directory where relative paths start. -/
structure Disk where
  entries : Std.ExtTreeMap Spot DiskEntry compare
  workingDirectory : Spot

namespace Disk

def empty : Disk :=
  { entries := ∅, workingDirectory := [] }

def entry? (disk : Disk) : Spot → Option DiskEntry
  | [] => some .directory
  | spot => disk.entries[spot]?

def put (disk : Disk) (spot : Spot) (entry : DiskEntry) : Disk :=
  { disk with entries := disk.entries.insert spot entry }

def erase (disk : Disk) (spot : Spot) : Disk :=
  { disk with entries := disk.entries.erase spot }

def workingPath (disk : Disk) : Path :=
  spotPath disk.workingDirectory

def maxNameLength : Nat :=
  255

/-- Paths are shorter than this, in bytes. -/
def maxPathLength : Nat :=
  4096

def follow (disk : Disk) (spot : Spot) : List String → Except IoFault Spot
  | [] => .ok spot
  | part :: parts =>
      match disk.entry? spot with
      | none => .error .nothing
      | some (.file _) => .error .notDirectory
      | some .directory =>
          if part = "" || part = "." then disk.follow spot parts
          else if part = ".." then disk.follow spot.tail parts
          else if part.utf8ByteSize > maxNameLength then .error .tooLong
          else disk.follow (part :: spot) parts

def locate (disk : Disk) (path : Path) : Except IoFault Spot :=
  if path.text.toList.contains '\x00' then .error .severedPath
  else if path.text.utf8ByteSize ≥ maxPathLength then .error .tooLong
  else if path.text = "" then .error .nothing
  else disk.follow (if path.isAbsolute then [] else disk.workingDirectory) path.parts

def lookup (disk : Disk) (path : Path) : Except IoFault DiskEntry :=
  match disk.locate path with
  | .error fault => .error fault
  | .ok spot =>
      match disk.entry? spot with
      | none => .error .nothing
      | some entry => .ok entry

def holds (disk : Disk) (path : Path) : Bool :=
  (disk.lookup path).toOption.isSome

def isDirectory (disk : Disk) (path : Path) : Bool :=
  disk.lookup path matches .ok .directory

def isFile (disk : Disk) (path : Path) : Bool :=
  disk.lookup path matches .ok (.file _)

def read (disk : Disk) (path : Path) : Except IoFault (List UInt8) :=
  match disk.lookup path with
  | .error fault => .error fault
  | .ok .directory => .error .isDirectory
  | .ok (.file content) => .ok content

def filesBelow (disk : Disk) (path : Path) : List Path :=
  match disk.locate path with
  | .error _ => []
  | .ok directory =>
      disk.entries.toList.filterMap fun (spot, entry) =>
        match entry with
        | .directory => none
        | .file _ => if directory.isSuffixOf spot then some (spotPath spot) else none

def readText (disk : Disk) (path : Path) : Except IoFault String :=
  match disk.read path with
  | .error fault => .error fault
  | .ok content =>
      match Utf8.decode? content with
      | none => .error .notText
      | some text => .ok (String.ofList text)

/-- Makes an empty file, or empties the one that is there. -/
def createFile (disk : Disk) (path : Path) : Except IoFault (Disk × Spot) :=
  match disk.locate path with
  | .error fault => .error fault
  | .ok spot =>
      if disk.entry? spot = some .directory then .error .isDirectory
      else .ok (disk.put spot (.file []), spot)

def withoutSlashes (path : Path) : Path :=
  let trimmed := (path.text.toList.reverse.dropWhile (· = '/')).reverse
  if trimmed.isEmpty then path else ⟨String.ofList trimmed⟩

def createDirectory (disk : Disk) (path : Path) : Except IoFault Disk :=
  match disk.locate (withoutSlashes path) with
  | .error fault => .error fault
  | .ok spot =>
      match disk.entry? spot with
      | some _ => .error .taken
      | none => .ok (disk.put spot .directory)

/-- Makes a directory; if the one around it is missing, `createOuter` makes that one first. -/
def createInside (createOuter : Disk → Path → Disk × Except IoFault Unit) (disk : Disk)
    (path : Path) : Disk × Except IoFault Unit :=
  if path.text = "" then (disk, .ok ())
  else
    match disk.createDirectory path with
    | .ok disk => (disk, .ok ())
    | .error fault =>
        if fault.kind = .missing then
          match path.parent? with
          | none => (disk, .error .noTree)
          | some parent =>
              match createOuter disk parent with
              | (disk, .error fault) => (disk, .error fault)
              | (disk, .ok ()) =>
                  match disk.createDirectory path with
                  | .ok disk => (disk, .ok ())
                  | .error fault =>
                      (disk, if disk.isDirectory path then .ok () else .error fault)
        else (disk, if disk.isDirectory path then .ok () else .error fault)

/-- Makes a directory and those around it; `fuel` bounds how many of them. -/
def createDirectories : Nat → Disk → Path → Disk × Except IoFault Unit
  | 0 => createInside fun disk _ => (disk, .error .noTree)
  | fuel + 1 => createInside (createDirectories fuel)

def createAll (disk : Disk) (path : Path) : Disk × Except IoFault Unit :=
  createDirectories (path.steps.length + 1) disk path

end Disk

end ComponentTags
