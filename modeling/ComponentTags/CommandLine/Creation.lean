import ComponentTags.CommandLine.Console

/-!
The command that starts a project: it writes a configuration and the shared modules.
-/

namespace ComponentTags.CommandLine

def createSupport (console : Console) (configuration : Configuration) :
    Console × Except Failure Unit :=
  let files := (configuration.workshop .jsx).support.files
  match console.disk.writeAll (files.map fun file => (file.path, file.content)) with
  | (disk, .error failure) => ({ console with disk }, .error failure)
  | (disk, .ok written) =>
      let directory := shownPath configuration.artifactRoot configuration.baseDirectory
      (({ console with disk }.printLine
          ("✓ Support modules in " ++ directory ++ " (" ++ toString written ++ " written)")).printLine
          "\nEdit the [[components]] entries, then run \x60cloudcom transform <files>\x60.",
        .ok ())

def createBase (disk : Disk) (base : Path) : Disk × Except Failure Unit :=
  if disk.holds base then (disk, .ok ())
  else
    match disk.createAll base with
    | (disk, .ok ()) => (disk, .ok ())
    | (disk, .error fault) =>
        (disk, .error ((Failure.of (.io fault)).within ("Failed to create " ++ base.text)))

/-- Starts a project; a configuration that is there is replaced only if that is asked for. -/
def create (console : Console) (path : Path) (force : Bool) : Console × Except Failure Unit :=
  if console.disk.holds path && !force then
    (console, .error (Fault.configurationUnusable
      (path.text ++ " already exists (use --force to overwrite)")))
  else
    let configuration := Configuration.sample (console.disk.directoryOf path)
    match createBase console.disk configuration.baseDirectory with
    | (disk, .error failure) => ({ console with disk }, .error failure)
    | (disk, .ok ()) =>
        match configuration.save disk path with
        | (disk, .error failure) => ({ console with disk }, .error failure)
        | (disk, .ok ()) =>
            createSupport ({ console with disk }.printLine ("✓ Created " ++ path.text)) configuration

end ComponentTags.CommandLine
