import ComponentTags.Artifact.Module
import ComponentTags.Tags.Registry
import ComponentTags.Toml.Printing
import ComponentTags.Toml.Reading

/-!
The configuration of a project: where its modules go, what they are called, and which tags stand for
components. Relative paths start at the directory of the configuration file.
-/

namespace ComponentTags

structure Configuration where
  artifactDirectory : Path
  cacheFile : Option Path
  identifierStart : String
  rendererModule : String
  fetchSeconds : Nat
  maxFetches : Option Nat
  components : List TagEntry
  baseDirectory : Path
deriving DecidableEq, Repr, Inhabited

namespace Toml.Value

def text? : Value → Option String
  | text value => some value
  | _ => none

def count? : Value → Option Nat
  | integer value => if 0 ≤ value && value.toNat < Nat.pow 2 64 then some value.toNat else none
  | _ => none

end Toml.Value

/-- The entry that a table is, or an array that starts with its three texts. -/
def TagEntry.ofValue? : Toml.Value → Option TagEntry
  | .table members => do
      let tag ← (← members.lookup "tag_name").text?
      let keyword ← (← members.lookup "def_keyword").text?
      let api ← (← members.lookup "api").text?
      return { tag, keyword, api }
  | .array (.text tag :: .text keyword :: .text api :: _) => some { tag, keyword, api }
  | _ => none

namespace Configuration

def standardSeconds : Nat :=
  30

def standardFetches : Nat :=
  10

def standard (baseDirectory : Path) : Configuration :=
  { artifactDirectory := ⟨".cloudcom"⟩
    cacheFile := none
    identifierStart := "CloudComponent"
    rendererModule := "@mybricks/render-web"
    fetchSeconds := standardSeconds
    maxFetches := none
    components := []
    baseDirectory }

def sample (baseDirectory : Path) : Configuration :=
  { standard baseDirectory with
    components :=
      [{ tag := "Widget", keyword := "def", api := "https://components.example.com/api/runtime" }] }

def artifactRoot (configuration : Configuration) : Path :=
  configuration.baseDirectory.absolutize configuration.artifactDirectory

def cacheDocument (configuration : Configuration) : Path :=
  match configuration.cacheFile with
  | some file => configuration.baseDirectory.absolutize file
  | none => configuration.artifactRoot / "cache.json"

/-- The time for a fetch, in seconds; none at all would be no use. -/
def timeoutSeconds (configuration : Configuration) : Nat :=
  if configuration.fetchSeconds = 0 then standardSeconds else configuration.fetchSeconds

def slots (configuration : Configuration) : Nat :=
  max 1 (configuration.maxFetches.getD standardFetches)

def workshop (configuration : Configuration) (dialect : Dialect) : Workshop :=
  .of dialect configuration.artifactRoot configuration.rendererModule configuration.identifierStart

/-! ### As text -/

def member? {α : Type} (members : List (String × Toml.Value)) (key : String) (absent : α)
    (decode : Toml.Value → Option α) : Option α :=
  match members.lookup key with
  | none => some absent
  | some value => decode value

/-- The configuration that a document tells; keys that mean nothing are passed over. -/
def parse? (baseDirectory : Path) (document : String) : Option Configuration := do
  let members ← Toml.read? document
  let base := standard baseDirectory
  let path? (value : Toml.Value) : Option Path := value.text?.map Path.mk
  return {
    artifactDirectory := ← member? members "artifact_dir" base.artifactDirectory path?
    cacheFile := ← member? members "cache_file" base.cacheFile fun value => (path? value).map some
    identifierStart := ← member? members "identifier_prefix" base.identifierStart (·.text?)
    rendererModule := ← member? members "renderer_module" base.rendererModule (·.text?)
    fetchSeconds := ← member? members "fetch_timeout_secs" base.fetchSeconds (·.count?)
    maxFetches := ← member? members "max_concurrent_fetches" base.maxFetches fun value =>
      value.count?.map some
    components := ← member? members "components" base.components fun value =>
      match value with
      | .array items => items.mapM TagEntry.ofValue?
      | _ => none
    baseDirectory }

def componentLines (entry : TagEntry) : List String :=
  ["", "[[components]]", Toml.textLine "tag_name" entry.tag,
   Toml.textLine "def_keyword" entry.keyword, Toml.textLine "api" entry.api]

def render (configuration : Configuration) : String :=
  textLines (
    [Toml.textLine "artifact_dir" configuration.artifactDirectory.text]
    ++ (configuration.cacheFile.map fun file => Toml.textLine "cache_file" file.text).toList
    ++ [Toml.textLine "identifier_prefix" configuration.identifierStart,
        Toml.textLine "renderer_module" configuration.rendererModule,
        Toml.numberLine "fetch_timeout_secs" configuration.fetchSeconds]
    ++ (configuration.maxFetches.map (Toml.numberLine "max_concurrent_fetches")).toList
    ++ if configuration.components.isEmpty then ["components = []"]
      else configuration.components.flatMap componentLines)

end Configuration

end ComponentTags
