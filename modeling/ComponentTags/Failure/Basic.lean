import ComponentTags.Fetch.Failure
import ComponentTags.Path

/-!
Failures: a cause and what was being done when it came up. Nothing that happens to a single component
is a failure; these are failures of the configuration, of files and of the command line.
-/

namespace ComponentTags

/-- The kinds of file system faults that are told apart. -/
inductive IoKind where
  | missing
  | forbidden
  | existing
  | invalidData
  | other
deriving DecidableEq, Repr, Inhabited

structure IoFault where
  kind : IoKind
  message : String
deriving DecidableEq, Repr, Inhabited

inductive FileOperation where
  | reading
  | writing
  | creatingDirectory
  | locking
deriving DecidableEq, Repr, Inhabited

def FileOperation.text : FileOperation → String
  | reading => "reading"
  | writing => "writing"
  | creatingDirectory => "creating directory"
  | locking => "locking"

structure FileFault where
  operation : FileOperation
  path : Path
  purpose : String
  caller : String
  source : IoFault
deriving DecidableEq, Repr, Inhabited

def FileFault.text (fault : FileFault) : String :=
  "File operation failed: " ++ fault.operation.text ++ " " ++ fault.path.text

/-- What can be wrong with a project, its files and the demands on it. -/
inductive Fault where
  | configurationMissing (path : Path)
  | configurationSyntax (path : Path)
  | configurationUnusable (message : String)
  | fileSystem (operation path : String)
  | forbidden (operation path : String)
  | cacheDocument (path : Path) (reason : String)
  | lockTimeout (path : Path)
  | artifactUnwritten (identifier : String) (path : Path)
  | templateFailed (template reason : String)
  | unknownDialect (name : String)
  | noInput (pattern : String)
  | invalidArguments (message : String)
  | invalidPattern (pattern problem : String)
  | artifactsMissing (count : Nat)
  | io (fault : IoFault)
  | other (message : String)
deriving DecidableEq, Repr, Inhabited

def Fault.text : Fault → String
  | configurationMissing path => "Configuration file not found: " ++ path.text
  | configurationSyntax path => "Invalid configuration file syntax in " ++ path.text
  | configurationUnusable message => "Configuration error: " ++ message
  | fileSystem operation _ => "File system error: " ++ operation
  | forbidden operation _ => "Permission denied: " ++ operation
  | cacheDocument path reason => "Cache document error at " ++ path.text ++ ": " ++ reason
  | lockTimeout path => "Timed out waiting for cache lock: " ++ path.text
  | artifactUnwritten identifier path =>
      "Failed to write artifact '" ++ identifier ++ "' to " ++ path.text
  | templateFailed template reason =>
      "Failed to render template '" ++ template ++ "': " ++ reason
  | unknownDialect name => "Unknown dialect '" ++ name ++ "'"
  | noInput pattern => "No input files matched '" ++ pattern ++ "'"
  | invalidArguments message => "Invalid arguments: " ++ message
  | invalidPattern pattern problem =>
      "Invalid arguments: invalid glob pattern '" ++ pattern ++ "': " ++ problem
  | artifactsMissing count => toString count ++ " cache entries point at missing artifacts"
  | io fault => "IO error: " ++ fault.message
  | other message => message

/-- What a failure comes from. -/
inductive Cause where
  | fault (fault : Fault)
  | file (fault : FileFault)
  | io (fault : IoFault)
  | syntaxError (reason : String)
  | fetch (failure : FetchFailure)
  | plain (message : String)
deriving DecidableEq, Repr, Inhabited

def Cause.chain : Cause → List String
  | .fault (.io source) => [(Fault.io source).text, source.message]
  | .fault found => [found.text]
  | .file found => [found.text, found.source.message]
  | .io source => [source.message]
  | .syntaxError reason => [reason]
  | .fetch failure => [failure.message]
  | .plain message => [message]

/-- A cause, and what was being done, the outermost first. -/
structure Failure where
  contexts : List String
  cause : Cause
deriving DecidableEq, Repr, Inhabited

namespace Failure

def of (cause : Cause) : Failure :=
  { contexts := [], cause }

def within (context : String) (failure : Failure) : Failure :=
  { failure with contexts := context :: failure.contexts }

def chain (failure : Failure) : List String :=
  failure.contexts ++ failure.cause.chain

def text (failure : Failure) : String :=
  failure.chain.headD ""

def inline (failure : Failure) : String :=
  joinTexts ": " failure.chain

end Failure

instance : Coe Fault Failure where
  coe fault := .of (.fault fault)

instance : Coe FileFault Failure where
  coe fault := .of (.file fault)

end ComponentTags
