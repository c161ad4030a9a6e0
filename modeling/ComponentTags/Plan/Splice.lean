import ComponentTags.Plan.Basic
import ComponentTags.Text.Entity
import ComponentTags.Text.Quoted

/-!
Carrying out a plan. Each edit replaces some bytes of the source; the splices are taken in the order
of their places, one that starts inside an earlier one or ends beyond the source is left out, and
every other byte stays.
-/

namespace ComponentTags

/-- A text to put in the place of a span. -/
structure Splice where
  span : Span
  text : List Char
deriving DecidableEq, Repr, Inhabited

/-- The characters that lie within the first `n` bytes. -/
def takeBytes (n : Nat) : List Char → List Char
  | [] => []
  | ch :: rest => if ch.utf8Size ≤ n then ch :: takeBytes (n - ch.utf8Size) rest else []

/-- The characters that do not lie within the first `n` bytes. -/
def dropBytes (n : Nat) : List Char → List Char
  | [] => []
  | ch :: rest => if ch.utf8Size ≤ n then dropBytes (n - ch.utf8Size) rest else ch :: rest

def sliceBytes (source : List Char) (start stop : Nat) : List Char :=
  dropBytes start (takeBytes stop source)

namespace Splice

def before (s t : Splice) : Bool :=
  s.span.start < t.span.start || (s.span.start == t.span.start && s.span.stop ≤ t.span.stop)

/-- Applies splices that are in order; the source up to `position` is done. -/
def applyFrom (source : List Char) (position : Nat) : List Splice → List Char
  | [] => dropBytes position source
  | splice :: rest =>
      if splice.span.start < position || utf8Length source < splice.span.stop then
        applyFrom source position rest
      else
        sliceBytes source position splice.span.start ++ splice.text
          ++ applyFrom source splice.span.stop rest

/-- Applies splices in the order of their places; of equal places the first one comes first. -/
def applyAll (source : List Char) (splices : List Splice) : List Char :=
  applyFrom source 0 (splices.mergeSort before)

end Splice

def fallbackAttributes (tag value : String) : String :=
  " tagName=\"" ++ Entity.attributeText tag ++ "\" defValue=\"" ++ Entity.attributeText value ++ "\""

def Edit.splices (edit : Edit) : List Splice :=
  let renamed (name : String) :=
    edit.closeNameSpan.toList.map fun span => ({ span, text := name.toList } : Splice)
  match edit.change with
  | .rename identifier => { span := edit.nameSpan, text := identifier.toList } :: renamed identifier
  | .fallback attrsEnd tag value =>
      { span := edit.nameSpan, text := fallbackName.toList }
        :: { span := ⟨attrsEnd, attrsEnd⟩, text := (fallbackAttributes tag value).toList }
        :: renamed fallbackName

def Import.text (declaration : Import) : String :=
  "import " ++ declaration.name ++ " from " ++ Quoted.encode declaration.specifier ++ ";"

/-- Whether a new line can start at that offset without a line break of its own. -/
def isLineStart (source : List Char) (offset : Nat) : Bool :=
  offset == 0 || (takeBytes offset source).getLast? == some '\n'

def Plan.importSplice? (source : List Char) (plan : Plan) : Option Splice :=
  let lines := plan.imports.map Import.text
  let insert (offset : Nat) (text : String) : Splice :=
    { span := ⟨offset, offset⟩, text := text.toList }
  if plan.imports.isEmpty then none
  else
    some (match plan.site with
      | .offset offset =>
          if isLineStart source offset then insert offset (String.join (lines.map (· ++ "\n")))
          else insert offset ("\n" ++ joinTexts "\n" lines)
      | .setupScript offset => insert offset ("\n" ++ joinTexts "\n" lines)
      | .newSetupScript =>
          insert 0 ("<script setup>\n" ++ joinTexts "\n" lines ++ "\n</script>\n\n"))

/-- All splices of a plan: the imports, then the edits in their order. -/
def Plan.splices (source : List Char) (plan : Plan) : List Splice :=
  (plan.importSplice? source).toList ++ plan.edits.flatMap Edit.splices

def Plan.apply (plan : Plan) (source : String) : String :=
  if plan.isEmpty then source
  else String.ofList (Splice.applyAll source.toList (plan.splices source.toList))

end ComponentTags
