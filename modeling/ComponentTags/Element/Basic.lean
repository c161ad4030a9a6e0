import ComponentTags.Source.Cursor

/-!
Elements as a source text writes them: names, attributes and the byte spans that an edit needs.
-/

namespace ComponentTags

/-- The value of an attribute, without its quotes or braces. -/
inductive AttributeValue where
  | literal (text : String)
  | expression (text : String)
deriving DecidableEq, Repr, Inhabited

/-- One attribute of an opening tag; the span covers its value. -/
structure Attribute where
  name : String
  value : Option AttributeValue
  span : Span
deriving DecidableEq, Repr, Inhabited

structure ClosingTag where
  nameSpan : Span
  span : Span
deriving DecidableEq, Repr, Inhabited

/--
An element. Its `span` is that of the opening tag; `attrsEnd` is where a further attribute goes: after
the last attribute, or after the name. A fragment has the empty name.
-/
structure Element where
  name : String
  nameSpan : Span
  span : Span
  attributes : List Attribute
  attrsEnd : Nat
  selfClosing : Bool
  depth : Nat
  close : Option ClosingTag
deriving DecidableEq, Repr, Inhabited

def Element.attribute? (element : Element) (name : String) : Option Attribute :=
  element.attributes.find? (·.name == name)

end ComponentTags
