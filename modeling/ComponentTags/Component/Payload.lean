import ComponentTags.Component.Reference
import ComponentTags.Text.Blank

/-!
What an endpoint serves for a component: its code and the components it needs.
-/

namespace ComponentTags

structure Payload where
  runtime : String
  deps : List Dependency
deriving DecidableEq, Repr, Inhabited

/-- How code becomes a module: a function is put into it, other code is imported from beside it. -/
inductive RuntimeKind where
  | source
  | compiled
deriving DecidableEq, Repr, Inhabited

namespace Payload

def trimmedRuntime (payload : Payload) : String :=
  trimBlanks payload.runtime

/-- Code that starts with `function` is a source. -/
def kind (payload : Payload) : RuntimeKind :=
  if "function".toList.isPrefixOf payload.trimmedRuntime.toList then .source else .compiled

end Payload

end ComponentTags
