import ComponentTags.CommandLine.Console
import ComponentTags.CommandLine.Inputs
import ComponentTags.CommandLine.Invocation

/-!
The command that transforms files. All files are transformed before anything is written; then each
result is delivered in turn, up to the first failure.
-/

namespace ComponentTags.CommandLine

structure Summary where
  files : Nat
  changed : Nat
  references : Nat
  errors : Nat
  report : Report
deriving DecidableEq, Repr, Inhabited

namespace Summary

def zero : Summary :=
  { files := 0, changed := 0, references := 0, errors := 0, report := .zero }

def add (summary : Summary) (transformed : Transformed) : Summary :=
  { files := summary.files + 1
    changed := summary.changed + if transformed.changed then 1 else 0
    references := summary.references + transformed.references.length
    errors := summary.errors + transformed.errors.length
    report := summary.report.add transformed.report }

/-- A line that tells of something only if there is any of it. -/
def countLine (mark : String) (count : Nat) (text : String) : List String :=
  if count = 0 then [] else ["  " ++ mark ++ " " ++ toString count ++ text]

def lines (summary : Summary) : List String :=
  ("✓ " ++ toString summary.files ++ " file(s), " ++ toString summary.changed ++ " changed: "
      ++ toString summary.references ++ " reference(s), " ++ toString summary.report.fetched
      ++ " fetched, " ++ toString summary.report.cacheHits ++ " cached")
    :: (countLine "!" summary.report.failed " component(s) replaced by fallbacks"
      ++ countLine "!" summary.errors " tag(s) with a missing or malformed definition"
      ++ countLine "!" summary.report.cycles " dependency cycle(s) skipped"
      ++ countLine "✗" summary.report.writeErrors " artifact(s) could not be written")

end Summary

/-- Transforms files one after another, whatever becomes of each. -/
def transformAll (session : Session) (dialect : Option Dialect) :
    List Path → Except SeveredCharacter (Session × List (Path × Except Failure Transformed))
  | [] => .ok (session, [])
  | path :: paths => do
      let (session, transformed) ← session.transformFile path dialect
      let (session, others) ← transformAll session dialect paths
      return (session, (path, transformed) :: others)

def deliver (console : Console) (demand : TransformDemand) (base path : Path)
    (transformed : Transformed) : Console × Except Failure Unit :=
  if demand.write then
    if transformed.changed then
      match console.disk.writeChanged path transformed.code with
      | (disk, .ok _) =>
          ({ console with disk }.note ("  rewrote " ++ shownPath path base), .ok ())
      | (disk, .error failure) => ({ console with disk }, .error failure)
    else (console, .ok ())
  else
    match demand.out with
    | some out =>
        let (disk, written) := console.disk.write out (Utf8.encode transformed.code.toList)
        ({ console with disk }, written)
    | none => (console.print transformed.code, .ok ())

/-- Delivers results in turn; after the last one it is told what became of the files. -/
def deliverAll (console : Console) (demand : TransformDemand) (base : Path) (summary : Summary) :
    List (Path × Except Failure Transformed) → Console × Except Failure Unit
  | [] => (summary.lines.foldl Console.note console, .ok ())
  | (path, .error failure) :: _ =>
      (console, .error (failure.within ("Failed to transform " ++ path.text)))
  | (path, .ok transformed) :: rest =>
      match deliver console demand base path transformed with
      | (console, .error failure) => (console, .error failure)
      | (console, .ok ()) => deliverAll console demand base (summary.add transformed) rest

def TransformDemand.run (demand : TransformDemand) (configurationFile : Path) (endpoint : Endpoint)
    (console : Console) : Except SeveredCharacter (Console × Except Failure Unit) :=
  match filesOfAll console.disk demand.inputs with
  | .error failure => .ok (console, .error failure)
  | .ok files =>
      if files.length > 1 && !demand.write then
        .ok (console, .error (Fault.invalidArguments
          (toString files.length
            ++ " inputs matched; use --write to transform several files in place")))
      else
        match console.loadProject configurationFile with
        | (console, .error failure) => .ok (console, .error failure)
        | (console, .ok configuration) => do
            let (cache, warnings) := Cache.load console.disk configuration.cacheDocument
            let session :=
              ({ Session.start configuration endpoint cache console.disk with pace := .inTime }).warn
                warnings
            let (session, results) ← transformAll session demand.dialect files
            let console :=
              { console with
                disk := session.disk
                requests := console.requests ++ session.requests }.warn session.warnings
            return deliverAll console demand configuration.baseDirectory .zero results

end ComponentTags.CommandLine
