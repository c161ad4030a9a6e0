import Std.Data.ExtTreeMap
import ComponentTags.Text.Blank
import ComponentTags.Url.Basic
import ComponentTags.Warning

/-!
The configured tags. An entry that cannot be used is left out with a warning; of several entries for
one tag the last one counts.
-/

namespace ComponentTags

/-- A map from texts, listed in the order of its keys. -/
abbrev TextMap (α : Type) := Std.ExtTreeMap String α compare

structure TagEntry where
  tag : String
  keyword : String
  api : String
deriving DecidableEq, Repr, Inhabited

/-- How a configured tag is resolved. -/
structure TagRule where
  keyword : String
  api : Url
deriving DecidableEq, Repr, Inhabited

def TagEntry.rule (entry : TagEntry) : Except TagFault TagRule :=
  if isBlankText entry.tag then .error .blankTag
  else if isBlankText entry.keyword then .error .blankKeyword
  else
    match Url.parse? entry.api with
    | none => .error .invalidAddress
    | some api =>
        if api.scheme = "http" || api.scheme = "https" then .ok { keyword := entry.keyword, api }
        else .error (.schemeNotWeb api.scheme)

structure TagRegistry where
  rules : TextMap TagRule

namespace TagRegistry

def warning? (entry : TagEntry) : Option Warning :=
  match entry.rule with
  | .ok _ => none
  | .error fault => some (.tagSkipped entry.tag fault)

/-- The registry with one more entry; one that cannot be used changes nothing. -/
def add (registry : TagRegistry) (entry : TagEntry) : TagRegistry :=
  match entry.rule with
  | .ok rule => { rules := registry.rules.insert entry.tag rule }
  | .error _ => registry

def ofEntries (entries : List TagEntry) : TagRegistry :=
  entries.foldl add { rules := ∅ }

def warnings (entries : List TagEntry) : List Warning :=
  entries.filterMap warning?

def find? (registry : TagRegistry) (tag : String) : Option TagRule :=
  registry.rules[tag]?

def isEmpty (registry : TagRegistry) : Bool :=
  registry.rules.isEmpty

def tags (registry : TagRegistry) : List String :=
  registry.rules.keys

end TagRegistry

end ComponentTags
