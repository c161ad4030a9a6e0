import ComponentTags.Component.Dialect
import ComponentTags.Element.Code
import ComponentTags.Element.Markup
import ComponentTags.Plan.Definition

/-!
Planning the changes of a source. Every configured tag gives an edit: its component's name or, if its
definition cannot be used, the fallback's. In single-file components only the elements inside the
first template block count.
-/

namespace ComponentTags

/-- What planning goes by: the tags, the names of components and the import of the fallback. -/
structure Setting where
  registry : TagRegistry
  naming : Naming
  fallbackSpecifier : String

/-- A configured element, the attribute with its definition, and what that definition says. -/
structure Sighting where
  element : Element
  keyword : String
  definition : Except DefinitionError Reference

namespace Sighting

def of? (registry : TagRegistry) (element : Element) : Option Sighting :=
  (registry.find? element.name).map fun rule =>
    { element, keyword := rule.keyword, definition := element.reference rule.keyword }

def reference? (sighting : Sighting) : Option Reference :=
  sighting.definition.toOption

def error? (sighting : Sighting) : Option DefinitionError :=
  match sighting.definition with
  | .ok _ => none
  | .error error => some error

def edit (naming : Naming) (sighting : Sighting) : Edit :=
  { nameSpan := sighting.element.nameSpan
    closeNameSpan := sighting.element.close.map (·.nameSpan)
    change :=
      match sighting.definition with
      | .ok reference => .rename (naming.identity reference).identifier
      | .error error => .fallback sighting.element.attrsEnd error.tag error.value }

def warnings (sighting : Sighting) : List Warning :=
  match sighting.definition with
  | .ok _ => []
  | .error error => sighting.element.definitionWarnings sighting.keyword error

end Sighting

namespace Setting

def importOf (setting : Setting) : Option Reference → Import
  | some reference =>
      let identity := setting.naming.identity reference
      { name := identity.identifier, specifier := identity.specifier }
  | none => { name := fallbackName, specifier := setting.fallbackSpecifier }

def plan (setting : Setting) (site : ImportSite) (elements : List Element) :
    Findings × List Warning :=
  let sightings := elements.filterMap (Sighting.of? setting.registry)
  let used := (sightings.map Sighting.reference?).eraseDups
  ({ references := used.filterMap fun reference? => reference?.map fun reference =>
       { reference, identity := setting.naming.identity reference }
     errors := sightings.filterMap Sighting.error?
     plan :=
       { imports := used.map setting.importOf
         edits := sightings.map (Sighting.edit setting.naming)
         site } },
    sightings.flatMap Sighting.warnings)

end Setting

/-! ### Modules of code -/

/--
The length of one directive: a quoted string on one line, alone in its statement, with the blanks
before it. A semicolon belongs to it, a line break does not.
-/
def directiveLength? (text : List Char) : Option Nat :=
  let blanks := (text.takeWhile Ascii.isBlank).length
  match text.drop blanks with
  | [] => none
  | quote :: body =>
      if quote = '"' || quote = '\'' then
        let inner := (body.takeWhile fun ch => ch != quote && ch != '\n').length
        match body.drop inner with
        | [] => none
        | ch :: after =>
            if ch = quote then
              let spaces := (after.takeWhile fun ch => ch = ' ' || ch = '\t').length
              match after.drop spaces with
              | ';' :: _ => some (blanks + inner + spaces + 3)
              | [] | '\n' :: _ | '\r' :: _ => some (blanks + inner + spaces + 2)
              | _ => none
            else
              none
      else
        none

theorem directiveLength?_pos {text : List Char} {n : Nat} (h : directiveLength? text = some n) :
    0 < n ∧ 0 < text.length := by
  cases text with
  | nil => simp [directiveLength?] at h
  | cons ch rest =>
      refine ⟨?_, by simp⟩
      unfold directiveLength? at h
      grind

def directivesLength (text : List Char) : Nat :=
  match h : directiveLength? text with
  | none => 0
  | some n =>
      have := directiveLength?_pos h
      n + directivesLength (text.drop n)
termination_by text.length
decreasing_by simp; omega

def shebangLength (text : List Char) : Nat :=
  if ['#', '!'].isPrefixOf text then lengthPast ['\n'] text else 0

/-- Where the imports of a module go: after its directives, which have to come first. -/
def importOffset (source : String) : Nat :=
  let shebang := shebangLength source.toList
  utf8Length (source.toList.take (shebang + directivesLength (source.toList.drop shebang)))

/-! ### Single-file components -/

def templateBlock? (elements : List Element) : Option Element :=
  elements.find? fun element => element.depth == 0 && element.name == "template"

/-- The elements that start inside a block: after its opening tag and before its closing tag. -/
def elementsInside (block : Element) (sourceSize : Nat) (elements : List Element) : List Element :=
  let stop := block.close.elim sourceSize (·.span.start)
  elements.filter fun element => block.span.stop ≤ element.span.start && element.span.start < stop

/-- Where the imports of a single-file component go: into its setup script, or into a new one. -/
def setupScriptSite (elements : List Element) : ImportSite :=
  let isSetup (element : Element) :=
    element.depth == 0 && element.name == "script" && (element.attribute? "setup").isSome
      && !element.selfClosing
  match elements.find? isSetup with
  | some script => .setupScript script.span.stop
  | none => .newSetupScript

/-! ### Sources -/

/-- The findings of a source. It is not read at all when no tag is configured. -/
def Setting.scan (setting : Setting) (dialect : Dialect) (source : String) :
    Except SeveredCharacter (Findings × List Warning) :=
  if setting.registry.isEmpty then .ok (.none, [])
  else
    match dialect with
    | .jsx => do
        let elements ← Element.ofCode source
        return setting.plan (.offset (importOffset source)) elements
    | .vue =>
        let elements := Element.ofMarkup source
        match templateBlock? elements with
        | none => .ok (.none, [])
        | some block =>
            .ok (setting.plan (setupScriptSite elements)
              (elementsInside block source.utf8ByteSize elements))

end ComponentTags
