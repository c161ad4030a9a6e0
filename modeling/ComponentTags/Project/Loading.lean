import ComponentTags.Disk.Replacing
import ComponentTags.Project.Configuration

/-!
Configuration files. A project without one asks for nothing; one that cannot be read is a failure.
-/

namespace ComponentTags

def Disk.directoryOf (disk : Disk) (path : Path) : Path :=
  let parent := path.parent?.getD ⟨""⟩
  disk.workingPath.absolutize (if parent.text = "" then ⟨"."⟩ else parent)

namespace Configuration

def load (disk : Disk) (path : Path) : Except Failure Configuration :=
  match disk.readText path with
  | .ok document =>
      match parse? (disk.directoryOf path) document with
      | some configuration => .ok configuration
      | none => .error (Fault.configurationSyntax path)
  | .error fault =>
      if fault.kind = .missing then .error (Fault.configurationMissing path)
      else .error ((Failure.of (.io fault)).within ("Failed to read config from " ++ path.text))

def loadOrStandard (disk : Disk) (path : Path) : Except Failure Configuration :=
  match load disk path with
  | .error { cause := .fault (.configurationMissing _), .. } =>
      .ok (standard (disk.directoryOf path))
  | loaded => loaded

def save (configuration : Configuration) (disk : Disk) (path : Path) :
    Disk × Except Failure Unit :=
  match disk.write path (Utf8.encode configuration.render.toList) with
  | (disk, .ok ()) => (disk, .ok ())
  | (disk, .error failure) =>
      (disk, .error (failure.within ("Failed to write config to " ++ path.text)))

end Configuration

end ComponentTags
