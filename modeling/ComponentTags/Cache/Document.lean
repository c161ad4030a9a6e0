import ComponentTags.Component.Envelope
import ComponentTags.Component.Key
import ComponentTags.Json.Printing
import ComponentTags.Tags.Registry

/-!
The cache document: by tag and by identifier, whether a component was fetched and written, and what
it needs. A document is read strictly; of several members with one key the last one counts.
-/

namespace ComponentTags

/-- What is known of a component: whether it was fetched and written, and what it needs. -/
structure CacheEntry where
  success : Bool
  deps : List Dependency
deriving DecidableEq, Repr, Inhabited

def CacheEntry.unknown : CacheEntry :=
  { success := false, deps := [] }

abbrev CacheMap := KeyMap CacheEntry

namespace CacheDocument

def dependencyKind : Json.RecordKind :=
  { name := "DependencyDescriptor", fields := ["namespace", "version"] }

def entryKind : Json.RecordKind :=
  { name := "CacheEntry", fields := ["success", "deps"] }

def dependency (value : Json.Value) : Except Json.Fault Dependency := do
  let record ← dependencyKind.read value
  return { space := ← (← record.field "namespace").asText
           version := ← (← record.field "version").asText }

/-- Reads an entry; what it does not tell is as if nothing were known. -/
def entry (value : Json.Value) : Except Json.Fault CacheEntry := do
  let record ← entryKind.read value
  let success ←
    match record.field? "success" with
    | none => pure false
    | some value => value.asBool
  let deps ←
    match record.field? "deps" with
    | none => pure []
    | some value => do (← value.asItems).mapM dependency
  return { success, deps }

/-- A map of members; the last one with a key counts. -/
def mapOfMembers {α : Type} (members : List (String × α)) : TextMap α :=
  members.foldl (fun found (key, value) => found.insert key value) ∅

def members {α : Type} (readValue : Json.Value → Except Json.Fault α) (value : Json.Value) :
    Except Json.Fault (TextMap α) := do
  let found ← (← value.asMembers).mapM fun (key, value) => do return (key, ← readValue value)
  return mapOfMembers found

def flatten (document : TextMap (TextMap CacheEntry)) : CacheMap :=
  document.foldl
    (fun entries tag components =>
      components.foldl (fun entries identifier entry => entries.insert ⟨tag, identifier⟩ entry)
        entries)
    ∅

def parse (text : String) : Except Json.Fault CacheMap :=
  if isBlankText text then .ok ∅
  else do
    let value ← Json.read (Utf8.encode text.toList)
    return flatten (← members (members entry) value)

def group (entries : CacheMap) : TextMap (TextMap CacheEntry) :=
  entries.foldl
    (fun document key entry =>
      document.alter key.tag fun components =>
        some ((components.getD ∅).insert key.identifier entry))
    ∅

def dependencyTree (dependency : Dependency) : Json.Tree :=
  .object [("namespace", .text dependency.space), ("version", .text dependency.version)]

def entryTree (entry : CacheEntry) : Json.Tree :=
  .object [("success", .bool entry.success), ("deps", .array (entry.deps.map dependencyTree))]

def tree (entries : CacheMap) : Json.Tree :=
  .object ((group entries).toList.map fun (tag, components) =>
    (tag, .object (components.toList.map fun (identifier, entry) => (identifier, entryTree entry))))

def render (entries : CacheMap) : String :=
  (tree entries).render

end CacheDocument

end ComponentTags
