import ComponentTags.Component.Identity
import ComponentTags.Source.Cursor

/-!
Plans: which tags of a source get another name, and which imports it needs for that.
-/

namespace ComponentTags

/-- The component shown in the place of a tag whose definition is missing or malformed. -/
def fallbackName : String :=
  "CloudComponentDefError"

structure Import where
  name : String
  specifier : String
deriving DecidableEq, Repr, Inhabited

/-- Where imports go. -/
inductive ImportSite where
  | offset (place : Nat)
  | setupScript (place : Nat)
  | newSetupScript
deriving DecidableEq, Repr, Inhabited

/--
What becomes of an element: it takes a component's name, or the fallback's name and, at `attrsEnd`,
two attributes that tell of its own name and definition.
-/
inductive Change where
  | rename (identifier : String)
  | fallback (attrsEnd : Nat) (tag value : String)
deriving DecidableEq, Repr, Inhabited

/-- The change of one element, with the spans of its name in both tags. -/
structure Edit where
  nameSpan : Span
  closeNameSpan : Option Span
  change : Change
deriving DecidableEq, Repr, Inhabited

/-- The edits of a source, in its order, and the imports, in the order of their first use. -/
structure Plan where
  imports : List Import
  edits : List Edit
  site : ImportSite
deriving DecidableEq, Repr, Inhabited

namespace Plan

def empty : Plan :=
  { imports := [], edits := [], site := .offset 0 }

def isEmpty (plan : Plan) : Bool :=
  plan.edits.isEmpty && plan.imports.isEmpty

end Plan

inductive DefinitionProblem where
  | missing
  | malformed
deriving DecidableEq, Repr, Inhabited

/-- A tag whose definition cannot be used, and that definition, empty when it is missing. -/
structure DefinitionError where
  tag : String
  value : String
  problem : DefinitionProblem
deriving DecidableEq, Repr, Inhabited

structure NamedReference where
  reference : Reference
  identity : Identity
deriving DecidableEq, Repr, Inhabited

/-- What a source says: the components in the order of their first use, the errors, and the plan. -/
structure Findings where
  references : List NamedReference
  errors : List DefinitionError
  plan : Plan
deriving DecidableEq, Repr, Inhabited

namespace Findings

def none : Findings :=
  { references := [], errors := [], plan := .empty }

def matched (findings : Findings) : Bool :=
  !findings.plan.edits.isEmpty

end Findings

end ComponentTags
