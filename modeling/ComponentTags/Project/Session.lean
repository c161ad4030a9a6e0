import ComponentTags.Build.Schedule
import ComponentTags.Project.Configuration

/-!
Sessions: sources of one project are transformed one after another. What was met in one source is not
fetched again for the next in the same dialect, and the cache is written after every source that uses
components.
-/

namespace ComponentTags

/-- A session: what it goes by, what it has met in either dialect, and a log. -/
structure Session where
  configuration : Configuration
  registry : TagRegistry
  endpoint : Endpoint
  cache : Cache
  disk : Disk
  jsxKnowledge : Knowledge
  vueKnowledge : Knowledge
  supported : Bool
  warnings : List Warning
  requests : List FetchRequest
  pace : Build.Pace := .atOnce

structure Transformed where
  code : String
  changed : Bool
  references : List NamedReference
  errors : List DefinitionError
  report : Report
deriving Repr

def Transformed.unchanged (source : String) : Transformed :=
  { code := source, changed := false, references := [], errors := [], report := .zero }

namespace Session

def start (configuration : Configuration) (endpoint : Endpoint) (cache : Cache) (disk : Disk) :
    Session :=
  { configuration
    registry := .ofEntries configuration.components
    endpoint, cache, disk
    jsxKnowledge := .none
    vueKnowledge := .none
    supported := false
    warnings := TagRegistry.warnings configuration.components
    requests := [] }

def knowledge (session : Session) : Dialect → Knowledge
  | .jsx => session.jsxKnowledge
  | .vue => session.vueKnowledge

def learn (session : Session) (dialect : Dialect) (knowledge : Knowledge) : Session :=
  match dialect with
  | .jsx => { session with jsxKnowledge := knowledge }
  | .vue => { session with vueKnowledge := knowledge }

def warn (session : Session) (warnings : List Warning) : Session :=
  { session with warnings := session.warnings ++ warnings }

def buildSetting (session : Session) (dialect : Dialect) : BuildSetting :=
  { workshop := session.configuration.workshop dialect
    registry := session.registry
    endpoint := session.endpoint
    slots := session.configuration.slots
    timeout := 1000 * session.configuration.timeoutSeconds }

def writeSupport (disk : Disk) : List OutputFile → Disk × Except Failure Unit
  | [] => (disk, .ok ())
  | file :: files =>
      match disk.writeChanged file.path file.content with
      | (disk, .ok _) => writeSupport disk files
      | (disk, .error _) =>
          ((writeSupport disk files).1,
            .error (Fault.artifactUnwritten (file.path.stem?.getD "") file.path))

def ensureSupport (session : Session) : Session × Except Failure Unit :=
  if session.supported then (session, .ok ())
  else
    match writeSupport session.disk (session.configuration.workshop .jsx).support.files with
    | (disk, .ok ()) => ({ session with disk, supported := true }, .ok ())
    | (disk, .error failure) => ({ session with disk }, .error failure)

def materialize (session : Session) (dialect : Dialect) (components : List NamedReference) :
    Session × Except Failure Report :=
  if components.isEmpty then (session, .ok .zero)
  else
    let start :=
      { Build.start session.cache session.disk with knowledge := session.knowledge dialect }
    let (build, report) := start.materialize (session.buildSetting dialect) components session.pace
    let flush := build.cache.flush build.disk
    let session :=
      ({ session with
        cache := flush.cache
        disk := flush.disk
        requests := session.requests ++ build.requests }.warn
          (build.warnings ++ flush.warnings)).learn dialect build.knowledge
    (session,
      match flush.outcome with
      | .ok () => .ok report
      | .error failure => .error (failure.within "Failed to write cache document"))

def transform (session : Session) (dialect : Dialect) (source : String) :
    Except SeveredCharacter (Session × Except Failure Transformed) :=
  let setting := (session.configuration.workshop dialect).setting session.registry
  match setting.scan dialect source with
  | .error severed => .error severed
  | .ok (findings, warnings) =>
      let session := session.warn warnings
      if !findings.matched then .ok (session, .ok (.unchanged source))
      else
        match session.ensureSupport with
        | (session, .error failure) => .ok (session, .error failure)
        | (session, .ok ()) =>
            let (session, built) := session.materialize dialect findings.references
            let code := findings.plan.apply source
            .ok (session, built.map fun report =>
              { code
                changed := code ≠ source
                references := findings.references
                errors := findings.errors
                report })

def transformFile (session : Session) (path : Path) (dialect : Option Dialect) :
    Except SeveredCharacter (Session × Except Failure Transformed) :=
  match dialect.or (Dialect.ofPath? path) with
  | none =>
      .ok (session, .error (Fault.invalidArguments
        ("cannot tell the dialect of " ++ path.text
          ++ "; pass --dialect jsx or --dialect vue")))
  | some dialect =>
      match session.disk.readText path with
      | .error source =>
          .ok (session, .error (.of (.file
            { operation := .reading, path, purpose := "transforming source file"
              caller := "transform_file", source })))
      | .ok source => session.transform dialect source

end Session

end ComponentTags
