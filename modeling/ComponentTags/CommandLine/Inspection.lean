import ComponentTags.CommandLine.Console
import ComponentTags.CommandLine.Invocation

/-!
The commands that look into the cache: one lists its entries with the modules that are there, the
other tells of components whose modules are gone.
-/

namespace ComponentTags.CommandLine

/-- An entry of the cache, and the modules that are there for it. -/
structure ListedEntry where
  key : ComponentKey
  entry : CacheEntry
  artifacts : List String
deriving DecidableEq, Repr

namespace ListedEntry

def artifactsOf (disk : Disk) (directory : Path) (identifier : String) : List String :=
  ([Dialect.jsx, .vue].map fun dialect => identifier ++ "." ++ dialect.artifactExtension).filter
    fun name => disk.isFile (directory / name)

def all (disk : Disk) (directory : Path) (cache : Cache) : List ListedEntry :=
  cache.entries.toList.map fun (key, entry) =>
    { key, entry, artifacts := artifactsOf disk directory key.identifier }

/-- Whether a component was fetched and written, but its modules are gone. -/
def isGone (listed : ListedEntry) : Bool :=
  listed.entry.success && listed.artifacts.isEmpty

def deps (listed : ListedEntry) : List String :=
  listed.entry.deps.map fun dependency => dependency.space ++ "@" ++ dependency.version

def lines (listed : ListedEntry) : List String :=
  [listed.key.tag ++ " " ++ listed.key.identifier
    ++ if listed.entry.success then " [ok]" else " [failed]"]
  ++ (if listed.deps.isEmpty then [] else ["    deps: " ++ joinTexts ", " listed.deps])
  ++ [if listed.artifacts.isEmpty then "    no artifacts"
      else "    artifacts: " ++ joinTexts ", " listed.artifacts]

def tree (listed : ListedEntry) : Json.Tree :=
  .object
    [("tag", .text listed.key.tag), ("identifier", .text listed.key.identifier),
     ("success", .bool listed.entry.success), ("deps", .array (listed.deps.map .text)),
     ("artifacts", .array (listed.artifacts.map .text))]

def goneLine (listed : ListedEntry) : String :=
  "✗ " ++ listed.key.identifier ++ " (" ++ listed.key.tag ++ "): artifact missing"

end ListedEntry

def listLines (entries : List ListedEntry) : ListFormat → List String
  | .json => [(Json.Tree.array (entries.map ListedEntry.tree)).render]
  | .text => if entries.isEmpty then ["No cached components"] else entries.flatMap ListedEntry.lines

def loadEntries (console : Console) (configurationFile : Path) :
    Console × Except Failure (List ListedEntry) :=
  match console.loadProject configurationFile with
  | (console, .error failure) => (console, .error failure)
  | (console, .ok configuration) =>
      let (cache, warnings) := Cache.load console.disk configuration.cacheDocument
      let directory := (configuration.workshop .jsx).naming.directory
      (console.warn warnings, .ok (ListedEntry.all console.disk directory cache))

def listCache (console : Console) (configurationFile : Path) (format : ListFormat) :
    Console × Except Failure Unit :=
  match loadEntries console configurationFile with
  | (console, .error failure) => (console, .error failure)
  | (console, .ok entries) => ((listLines entries format).foldl Console.printLine console, .ok ())

def verifyCache (console : Console) (configurationFile : Path) : Console × Except Failure Unit :=
  match loadEntries console configurationFile with
  | (console, .error failure) => (console, .error failure)
  | (console, .ok entries) =>
      match entries.filter ListedEntry.isGone with
      | [] =>
          (console.printLine ("✓ " ++ toString entries.length ++ " cache entries verified"), .ok ())
      | gone =>
          ((gone.map ListedEntry.goneLine).foldl Console.printLine console,
            .error (Fault.artifactsMissing gone.length))

end ComponentTags.CommandLine
