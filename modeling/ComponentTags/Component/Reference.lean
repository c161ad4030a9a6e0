import ComponentTags.Path

/-!
References to components. A component is known by the tag that it is used under, its namespace and
its version; two references with the same three texts are the same component.
-/

namespace ComponentTags

/-- A component that another one needs. It is used under the tag of the component that needs it. -/
structure Dependency where
  space : String
  version : String
deriving DecidableEq, Repr, Inhabited

structure Reference where
  tag : String
  space : String
  version : String
deriving DecidableEq, Repr, Inhabited

/-- The namespace and the version of a definition: two parts around its one `@`, neither empty. -/
def splitDefinition? (definition : String) : Option (String × String) :=
  match splitChars '@' definition.toList with
  | [space, version] =>
      if space.isEmpty || version.isEmpty then none
      else some (String.ofList space, String.ofList version)
  | _ => none

namespace Reference

def ofDefinition? (tag definition : String) : Option Reference :=
  (splitDefinition? definition).map fun (space, version) => { tag, space, version }

def child (reference : Reference) (dependency : Dependency) : Reference :=
  { tag := reference.tag, space := dependency.space, version := dependency.version }

/-- The key under which generated modules register the component. -/
def registryKey (reference : Reference) : String :=
  reference.space ++ "-" ++ reference.version

def definition (reference : Reference) : String :=
  reference.space ++ "@" ++ reference.version

def text (reference : Reference) : String :=
  "<" ++ reference.tag ++ "> " ++ reference.definition

end Reference

end ComponentTags
