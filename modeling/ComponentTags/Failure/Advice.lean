import ComponentTags.Failure.Basic

/-!
Advice: a failure as the user sees it, with what explains it and what helps.
-/

namespace ComponentTags

/-- A fault with what explains it and what helps. -/
structure Advice where
  fault : Fault
  suggestion : Option String
  details : Option String
deriving DecidableEq, Repr, Inhabited

def FileFault.details (fault : FileFault) : String :=
  "Failed " ++ fault.operation.text ++ " '" ++ fault.path.text ++ "' for " ++ fault.purpose
    ++ " (" ++ fault.caller ++ ")"
    ++ match fault.source.kind with
      | .missing => "\n\nThe file does not exist at the specified path."
      | .forbidden =>
          "\n\nPermission denied. Check file/directory permissions for: " ++ fault.path.text
      | .invalidData =>
          "\n\nThe file contains invalid data or encoding."
            ++ "\nSource files must be valid UTF-8 text."
      | _ => "\n\nError details: " ++ fault.source.message

def FileFault.suggestion (fault : FileFault) : String :=
  match fault.source.kind with
  | .missing => "Check that the path exists and is spelled correctly"
  | .forbidden => "Check the permissions of the file and its directory"
  | _ => "Check that the file is accessible and not locked by another process"

def Fault.advice (fault : Fault) : Advice :=
  match fault with
  | .configurationMissing _ =>
      { fault
        suggestion := "Run 'cloudcom init' to create a cloudcom.toml, or pass --config <path>"
        details := "cloudcom reads the tag configuration from cloudcom.toml in the current "
          ++ "directory by default" }
  | .configurationSyntax path =>
      { fault
        suggestion := "Check the TOML syntax in " ++ path.text
          ++ ". Common issues: missing quotes, [components] instead of [[components]]"
        details := none }
  | .configurationUnusable _ =>
      { fault
        suggestion := "Every component needs tag_name, def_keyword and an absolute http(s) api URL"
        details := none }
  | .forbidden _ path =>
      { fault, suggestion := "Check permissions for " ++ path, details := none }
  | .cacheDocument _ _ =>
      { fault
        suggestion := "Remove the cache document to force a full refetch on the next build"
        details := "The cache document only records which components were already materialized" }
  | .lockTimeout _ =>
      { fault
        suggestion := "Another build may be holding the lock. Wait for it to finish and retry"
        details := "The cache document is locked while it is merged and rewritten" }
  | .artifactUnwritten _ _ =>
      { fault
        suggestion := "Check free disk space and permissions of the artifact directory"
        details := none }
  | .unknownDialect _ =>
      { fault, suggestion := "Use one of: auto, jsx, vue", details := none }
  | .noInput _ =>
      { fault
        suggestion := "Quote glob patterns so the shell does not expand them, e.g. 'src/**/*.jsx'"
        details := none }
  | .artifactsMissing _ =>
      { fault
        suggestion := "Run a build; desynchronized components are refetched automatically"
        details := "An entry marked successful whose artifact file is missing is treated as a "
          ++ "cache miss" }
  | .io source => { fault := .other (Fault.io source).text, suggestion := none, details := none }
  | _ => { fault, suggestion := none, details := none }

namespace Failure

def report (failure : Failure) : String :=
  match failure.chain with
  | [] => ""
  | [text] => text
  | text :: causes =>
      text ++ "\n\nCaused by:" ++ String.join
        (causes.zipIdx.map fun (cause, index) => "\n  " ++ toString (index + 1) ++ ": " ++ cause)

def generalAdvice (failure : Failure) : Advice :=
  { fault := .other failure.report, suggestion := none, details := none }

def advice (failure : Failure) : Advice :=
  match failure.cause with
  | .fault fault => fault.advice
  | .file fault =>
      { fault := .fileSystem fault.operation.text fault.path.text
        suggestion := fault.suggestion
        details := fault.details }
  | .io fault =>
      match fault.kind with
      | .forbidden =>
          { fault := .forbidden "file access" "unknown"
            suggestion := "Check ownership and permissions of the artifact directory and input files"
            details := "cloudcom needs to read sources and write generated modules next to the "
              ++ "cache document" }
      | .missing =>
          { fault := .fileSystem "file access" "unknown"
            suggestion := "Check that the file or directory exists and the path is correct"
            details := none }
      | _ => failure.generalAdvice
  | .syntaxError _ =>
      { fault := .configurationSyntax ⟨"cloudcom.toml"⟩
        suggestion := "Check the TOML syntax of cloudcom.toml. Each component is a [[components]] "
          ++ "table"
        details := none }
  | .fetch _ | .plain _ => failure.generalAdvice

end Failure

namespace Advice

def labelled (advice : Advice) (detailsLabel suggestionLabel : String) : List String :=
  (advice.details.map (detailsLabel ++ ·)).toList
    ++ (advice.suggestion.map (suggestionLabel ++ ·)).toList

def text (advice : Advice) : String :=
  joinTexts "\n" (advice.fault.text :: advice.labelled "Details: " "Suggestion: ")

def terminalText (advice : Advice) : String :=
  String.join ((("error: " ++ advice.fault.text)
    :: advice.labelled "details: " "suggestion: ").map (· ++ "\n"))

end Advice

end ComponentTags
