import ComponentTags.Element.Basic
import ComponentTags.Plan.Basic
import ComponentTags.Tags.Registry
import ComponentTags.Text.Distance

/-!
Reading the definition of an element. It is the text of one attribute, or an expression that is a
single plain string.
-/

namespace ComponentTags

def containsChars (part : List Char) : List Char → Bool
  | [] => part.isEmpty
  | ch :: rest => part.isPrefixOf (ch :: rest) || containsChars part rest

/--
The text of an expression that is one plain string: the same quote at both ends and neither that
quote nor a backslash inside, nor a hole in backticks.
-/
def plainString? (expression : String) : Option String :=
  match trimChars expression.toList with
  | quote :: rest =>
      let inner := rest.dropLast
      if ['"', '\'', '\x60'].contains quote && rest.getLast? = some quote
          && !inner.contains quote && !inner.contains '\\'
          && !(quote = '\x60' && containsChars ['$', '\x7b'] inner) then
        some (String.ofList inner)
      else
        none
  | [] => none

/-- The definition that an attribute's value gives, or else the text to show for it. -/
def definitionText : Option AttributeValue → Except String String
  | none => .ok ""
  | some (.literal text) => .ok text
  | some (.expression text) =>
      match plainString? text with
      | some text => .ok text
      | none => .error ("\x7b" ++ text ++ "\x7d")

def Element.reference (element : Element) (keyword : String) :
    Except DefinitionError Reference :=
  match element.attribute? keyword with
  | none => .error { tag := element.name, value := "", problem := .missing }
  | some found =>
      match definitionText found.value with
      | .error shown => .error { tag := element.name, value := shown, problem := .malformed }
      | .ok text =>
          match Reference.ofDefinition? element.name text with
          | some reference => .ok reference
          | none => .error { tag := element.name, value := text, problem := .malformed }

def nearestName? (keyword : String) (names : List String) : Option (String × Nat) :=
  (names.map fun name => (name, editDistance keyword name)).foldl
    (fun best found =>
      match best with
      | none => some found
      | some (name, distance) => if found.2 < distance then some found else some (name, distance))
    none

/-- The attribute that was perhaps meant: at most half the keyword's bytes are edited. -/
def Element.similarAttribute? (element : Element) (keyword : String) : Option String :=
  match nearestName? keyword (element.attributes.map (·.name)) with
  | some (name, distance) => if distance ≤ keyword.utf8ByteSize * 50 / 100 then some name else none
  | none => none

def Element.definitionWarnings (element : Element) (keyword : String) (error : DefinitionError) :
    List Warning :=
  match error.problem with
  | .missing =>
      ((element.similarAttribute? keyword).map fun name =>
        Warning.similarAttribute element.name name keyword).toList
        ++ [.definitionMissing element.name keyword]
  | .malformed => [.definitionMalformed element.name error.value]

end ComponentTags
