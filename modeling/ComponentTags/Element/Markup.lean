import ComponentTags.Element.Reading

/-!
The elements of markup. Reading gives the tags as they stand; pairing then gives each closing tag to
the innermost open element of its name and thereby ends what is open inside that element.
-/

namespace ComponentTags

def voidElementNames : List String :=
  ["area", "base", "br", "col", "embed", "hr", "img", "input", "link", "meta", "param", "source",
    "track", "wbr"]

def rawTextElementNames : List String :=
  ["script", "style"]

/-- An element that has nothing inside: it closes itself or is void. -/
def Element.isEmpty (element : Element) : Bool :=
  element.selfClosing || voidElementNames.contains (Ascii.lower element.name)

inductive MarkupTag where
  | opening (element : Element)
  | closing (name : String) (tag : ClosingTag)
deriving DecidableEq, Repr, Inhabited

/-- How many characters stand before the first `pattern`; all of them if there is none. -/
def lengthBefore (pattern : List Char) : List Char → Nat
  | [] => 0
  | ch :: rest =>
      if pattern.isPrefixOf (ch :: rest) then 0 else lengthBefore pattern rest + 1

/-- The length of the raw text inside an element of that name, up to its closing tag in any case. -/
def rawTextLength (name : String) (text : List Char) : Nat :=
  lengthBefore ('<' :: '/' :: (Ascii.lower name).toList) (text.map Char.toLower)

def Cursor.skipRawText (element : Element) (c : Cursor) : Cursor :=
  if !element.isEmpty && rawTextElementNames.contains (Ascii.lower element.name) then
    c.drop (rawTextLength element.name c.rest)
  else
    c

theorem remaining_skipRawText_le (element : Element) (c : Cursor) :
    (c.skipRawText element).remaining ≤ c.remaining := by
  unfold Cursor.skipRawText
  split <;> simp

/--
The tags of markup from `c` on. Comments, declarations, instructions, interpolations and raw text
hold none.
-/
def markupTags (c : Cursor) : List MarkupTag :=
  match h : c.rest with
  | [] => []
  | '<' :: '!' :: '-' :: '-' :: _ =>
      have := lengthPast_pos "-->".toList c.rest (by decide) (by simp [h])
      markupTags (c.drop (lengthPast "-->".toList c.rest))
  | '<' :: '!' :: _ | '<' :: '?' :: _ =>
      have := lengthPast_pos ['>'] c.rest (by decide) (by simp [h])
      markupTags (c.drop (lengthPast ['>'] c.rest))
  | '<' :: '/' :: _ =>
      have := remaining_closingTag_le c
      .closing (closingTag c).value.1 (closingTag c).value.2 :: markupTags (closingTag c).next
  | '<' :: ch :: _ =>
      if Lexical.isNameStart ch then
        match readOpeningTag .markup 0 c.offset c.advance with
        | ⟨opening, fromStart⟩ =>
            have := remaining_skipRawText_le opening.value opening.next
            .opening opening.value :: markupTags (opening.next.skipRawText opening.value)
      else
        markupTags c.advance
  | '{' :: '{' :: _ =>
      have := lengthPast_pos ['}', '}'] c.rest (by decide) (by simp [h])
      markupTags (c.drop (lengthPast ['}', '}'] c.rest))
  | _ :: _ => markupTags c.advance
termination_by c.remaining
decreasing_by
  all_goals have := Cursor.remaining_of_rest h
  any_goals simp only [Cursor.remaining_advance, Cursor.remaining_drop] at *
  all_goals omega

/-- Elements found so far, and the places among them of the open ones, innermost first. -/
structure OpenElements where
  elements : Array Element
  openNames : List (Nat × String)
deriving Repr, Inhabited

def OpenElements.opened (state : OpenElements) (element : Element) : OpenElements :=
  { elements := state.elements.push { element with depth := state.openNames.length }
    openNames :=
      if element.isEmpty then state.openNames
      else (state.elements.size, element.name) :: state.openNames }

def OpenElements.closed (state : OpenElements) (name : String) (tag : ClosingTag) : OpenElements :=
  match state.openNames.dropWhile (·.2 != name) with
  | [] => state
  | (index, _) :: outer =>
      { elements := state.elements.modify index fun element => { element with close := some tag }
        openNames := outer }

def OpenElements.step (state : OpenElements) : MarkupTag → OpenElements
  | .opening element => state.opened element
  | .closing name tag => state.closed name tag

def Element.ofMarkup (source : String) : List Element :=
  ((markupTags (.start source.toList)).foldl OpenElements.step ⟨#[], []⟩).elements.toList

end ComponentTags
