import ComponentTags.Element.Reading

/-!
The elements of a module of code. Strings, template literals and comments hide tags; a `<` opens an
element only where an operand is expected.
-/

namespace ComponentTags

/--
The text ends inside the expression of an attribute, and its last character takes more than one
byte, so that the byte cut off for the closing brace leaves half a character.
-/
structure SeveredCharacter where
deriving DecidableEq, Repr

def Element.ofCode (source : String) : Except SeveredCharacter (List Element) :=
  let reading := (readCode false 0 0 (.start source.toList)).val
  if reading.severed then .error {} else .ok reading.elements

end ComponentTags
