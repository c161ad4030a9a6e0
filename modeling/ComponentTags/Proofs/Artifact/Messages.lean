import ComponentTags.Proofs.Artifact.EntryElements
import ComponentTags.Proofs.Element.MarkupTrees
import ComponentTags.Proofs.Json.Documents
import ComponentTags.Proofs.Text.Entities

/-!
Messages in place of components. Whatever the texts of a reference are, they are shown as they are: in
markup between the tags of the one `div` of a template, in code as one string in the braces of a `div`.
-/

namespace ComponentTags

/-! ### The message in markup -/

namespace MessageTags

def box : TagName :=
  .of "div".toList (by decide)

def styleName : AttributeName where
  chars := "style".toList
  all := List.all_eq_true.1 rfl
  nonempty := by decide

theorem chars_template : templateName.chars = "template".toList :=
  TagName.chars_of _

theorem chars_box : box.chars = "div".toList :=
  TagName.chars_of _

def boxAttributes : List MarkupAttribute :=
  [.plain (.quoted styleName .double ⟨messageStyle.toList, List.all_eq_true.1 (by decide)⟩)]

theorem opening_template : templateName.openingChars [] false = "<template>".toList := by
  decide

theorem closing_template : templateName.closingChars = "</template>".toList := by
  decide

theorem opening_box : box.openingChars boxAttributes false =
    ("<div style=\"" ++ messageStyle ++ "\">").toList := by
  decide

theorem closing_box : box.closingChars = "</div>".toList := by
  decide

/-- A text between tags that is written with entities. -/
def content (text : String) : Run isChildChar where
  chars := (Entity.contentText text).toList
  all := by
    intro ch hch
    simp only [isChildChar, Bool.and_eq_true, bne_iff_ne]
    constructor
    · rintro rfl
      exact Entity.notMem_contentText (by decide) text hch
    · rintro rfl
      exact Entity.notMem_contentText (by decide) text hch

theorem chars_content (text : String) : (content text).chars = (Entity.contentText text).toList := by
  rw [content]

def boxNode (text : Run isChildChar) : MarkupNode :=
  .full box (by decide) (by decide) boxAttributes [.text text]

/-- The end of a line and the blanks before the next one. -/
def lineBreak (indent : Nat) : Run isChildChar where
  chars := '\n' :: List.replicate indent ' '
  all := by simp [isChildChar]

def templateNodes (text : Run isChildChar) : List MarkupNode :=
  [.text (lineBreak 2), boxNode text, .text (lineBreak 0)]

/-- A template with one `div`, and a text in that. -/
def messageForest (text : Run isChildChar) : List MarkupNode :=
  [.full templateName (by decide) (by decide) [] (templateNodes text), .text (lineBreak 0)]

end MessageTags

open MessageTags

section Markup

variable {source front rest : List Char}

theorem covers_full {name : TagName} {notVoid : ¬name.IsVoid} {notRaw : ¬name.IsRaw}
    {attributes : List MarkupAttribute} {children : List MarkupNode} {start : Nat}
    (h : source = front ++ ((MarkupNode.full name notVoid notRaw attributes children).chars ++ rest))
    (hstart : start = utf8Length front) :
    let inside := start + utf8Length (name.openingChars attributes false)
    let close := inside + utf8Length (forestChars children)
    Covers source ⟨inside, close⟩ (forestChars children) ∧
      Covers source (name.placedClosing close).span name.closingChars := by
  subst hstart
  rw [MarkupNode.chars] at h
  refine ⟨⟨front ++ name.openingChars attributes false, name.closingChars ++ rest, ?_, ?_, ?_⟩,
    front ++ (name.openingChars attributes false ++ forestChars children), rest, ?_, ?_, ?_⟩
  · simp only [h, List.append_assoc]
  · rw [utf8Length_append]
  · rw [utf8Length_append]
  · simp only [h, List.append_assoc]
  · simp only [TagName.placedClosing, utf8Length_append, Nat.add_assoc]
  · simp only [TagName.placedClosing, utf8Length_append, Nat.add_assoc]

/-- Where what an opening tag stands before begins. -/
theorem stop_opened (name : TagName) (attributes : List MarkupAttribute) (depth start : Nat)
    (close : Option ClosingTag) :
    (name.opened attributes false depth start close).span.stop =
      start + utf8Length (name.openingChars attributes false) := by
  rw [TagName.openingChars, utf8Length, ← Nat.add_assoc]
  rfl

/-- A closed template from the front of a source to its last line feed, and in it a closed `div`, with a
text between the tags of that. -/
structure IsTemplateText (source text : List Char) (outer inner : Element) : Prop where
  names : outer.name = "template" ∧ inner.name = "div"
  depths : outer.depth = 0 ∧ inner.depth = 1
  start : outer.span.start = 0
  closed : ∃ outerTag innerTag, outer.close = some outerTag ∧ inner.close = some innerTag ∧
    Covers source outerTag.span "</template>".toList ∧ outerTag.span.stop + 1 = utf8Length source ∧
    Covers source innerTag.span "</div>".toList ∧
    outer.span.stop ≤ inner.span.start ∧ innerTag.span.stop ≤ outerTag.span.start ∧
    Covers source ⟨inner.span.stop, innerTag.span.start⟩ text

theorem forestChars_templateNodes (text : Run isChildChar) :
    forestChars (templateNodes text) = "\n  ".toList ++ ((boxNode text).chars ++ ['\n']) := by
  simp [templateNodes, forestChars, MarkupNode.chars, lineBreak]

theorem forestChars_messageForest (text : Run isChildChar) :
    forestChars (messageForest text) = templateName.openingChars [] false ++
      (forestChars (templateNodes text) ++ (templateName.closingChars ++ ['\n'])) := by
  simp [messageForest, forestChars, MarkupNode.chars, lineBreak]

theorem utf8Length_opening_template : utf8Length (templateName.openingChars [] false) = 10 := by
  decide

theorem forestChars_text (text : Run isChildChar) : forestChars [.text text] = text.chars :=
  List.append_nil _

theorem utf8Length_templateNodes (text : Run isChildChar) :
    utf8Length (forestChars (templateNodes text)) =
      3 + (utf8Length (box.openingChars boxAttributes false) +
        (utf8Length text.chars + (utf8Length box.closingChars + 1))) := by
  rw [forestChars_templateNodes, boxNode, MarkupNode.chars, forestChars_text]
  simp only [utf8Length_append]
  rfl

theorem utf8Length_messageForest (text : Run isChildChar) :
    utf8Length (forestChars (messageForest text)) =
      10 + (utf8Length (forestChars (templateNodes text)) +
        (utf8Length templateName.closingChars + 1)) := by
  rw [forestChars_messageForest, utf8Length_append, utf8Length_append, utf8Length_append,
    utf8Length_opening_template]
  rfl

/-- The closing tag of the template around a text. -/
def templateTag (text : Run isChildChar) : ClosingTag :=
  templateName.placedClosing (10 + utf8Length (forestChars (templateNodes text)))

/-- The closing tag of the `div` around a text. -/
def boxTag (text : Run isChildChar) : ClosingTag :=
  box.placedClosing (13 + utf8Length (box.openingChars boxAttributes false) + utf8Length text.chars)

theorem forestElements_messageForest (text : Run isChildChar) :
    forestElements 0 0 (messageForest text) =
      [templateName.opened [] false 0 0 (some (templateTag text)),
        box.opened boxAttributes false 1 13 (some (boxTag text))] := by
  have hlead : utf8Length (lineBreak 2).chars = 3 := by decide
  simp only [messageForest, templateNodes, boxNode, forestElements, MarkupNode.elements,
    utf8Length_opening_template, hlead, MarkupNode.chars, Nat.zero_add, forestChars_text,
    List.append_nil, List.nil_append]
  rfl

theorem covers_templateTag (text : Run isChildChar) :
    Covers (forestChars (messageForest text)) (templateTag text).span templateName.closingChars := by
  have htemplate : forestChars (messageForest text) = [] ++
      ((MarkupNode.full templateName (by decide) (by decide) [] (templateNodes text)).chars ++
        ['\n']) := by
    simp only [messageForest, forestChars, MarkupNode.chars, List.append_nil, List.nil_append]
    rfl
  have hcovers := (covers_full htemplate rfl).2
  rwa [utf8Length, Nat.zero_add, utf8Length_opening_template] at hcovers

theorem covers_box (text : Run isChildChar) :
    let inside := 13 + utf8Length (box.openingChars boxAttributes false)
    Covers (forestChars (messageForest text)) ⟨inside, inside + utf8Length text.chars⟩ text.chars ∧
      Covers (forestChars (messageForest text)) (boxTag text).span box.closingChars := by
  have hbox : forestChars (messageForest text) =
      (templateName.openingChars [] false ++ "\n  ".toList) ++
        ((boxNode text).chars ++ ('\n' :: (templateName.closingChars ++ ['\n']))) := by
    rw [forestChars_messageForest, forestChars_templateNodes]
    simp only [List.append_assoc, List.cons_append, List.nil_append]
  have hfront : 13 = utf8Length (templateName.openingChars [] false ++ "\n  ".toList) := by decide
  obtain ⟨hinside, hclose⟩ := covers_full hbox hfront
  rw [forestChars_text] at hinside hclose
  exact ⟨hinside, hclose⟩

theorem messageForest_elements (text : Run isChildChar) :
    ∃ outer inner, forestElements 0 0 (messageForest text) = [outer, inner] ∧
      IsTemplateText (forestChars (messageForest text)) text.chars outer inner := by
  obtain ⟨hinside, hinner⟩ := covers_box text
  refine ⟨_, _, forestElements_messageForest text, ⟨?_, ?_⟩, ⟨rfl, rfl⟩, rfl, templateTag text, boxTag text,
    rfl, rfl, closing_template ▸ covers_templateTag text, ?_, closing_box ▸ hinner, ?_, ?_, ?_⟩
  · exact (congrArg String.ofList chars_template).trans String.ofList_toList
  · exact (congrArg String.ofList chars_box).trans String.ofList_toList
  · simp only [templateTag, TagName.placedClosing, utf8Length_messageForest]
    omega
  · rw [stop_opened, utf8Length_opening_template]
    simp only [TagName.opened, TagName.placed]
    omega
  · simp only [boxTag, templateTag, TagName.placedClosing, utf8Length_templateNodes]
    omega
  · rw [stop_opened]
    exact hinside

theorem errorText_vue (support : Support) (reference : Reference) :
    (errorText .vue support reference).toList =
      forestChars (messageForest (content (notFoundMessage reference))) := by
  have hchars := chars_content (notFoundMessage reference)
  rw [forestChars_messageForest, forestChars_templateNodes, boxNode, MarkupNode.chars, opening_box,
    closing_box, opening_template, closing_template]
  unfold errorText
  dsimp only
  generalize content (notFoundMessage reference) = text at hchars ⊢
  generalize Entity.contentText (notFoundMessage reference) = shown at hchars ⊢
  simp [textLines, forestChars, MarkupNode.chars, hchars]

end Markup

/-! ### The message in code -/

section Code

theorem suitsCode_styleName : styleName.SuitsCode :=
  ⟨by decide, by decide⟩

/-- What stands behind the `<` of the message in code. -/
def messageTail (message : String) : List Char :=
  holedTail box styleName "style".toList
    (" ".toList ++ ((Quoted.encode message).toList ++ " ".toList))

theorem errorText_jsx (support : Support) (reference : Reference) :
    (errorText .jsx support reference).toList =
      ((textLines ["import React from \"react\";", support.styleImport, ""]).toList ++
        "export default function () ".toList) ++
        ('{' :: ("\n  return ".toList ++ ('<' :: messageTail (notFoundMessage reference) ++
          (";\n".toList ++ '}' :: "\n".toList)))) := by
  have hname : styleName.chars = "style".toList := rfl
  unfold errorText
  dsimp only
  generalize Support.styleImport support = styleImport
  generalize notFoundMessage reference = message
  simp [textLines, messageTail, holedTail, bracedChars, bracesChars, hname, tagEnd, chars_box,
    TagName.closingChars]

theorem isQuiet_imports (support : Support) :
    IsQuiet (textLines ["import React from \"react\";", support.styleImport, ""]).toList := by
  have hreact : Import.text { name := "React", specifier := "react" } =
      "import React from \"react\";" := by
    decide
  have hstyle : support.styleImport.toList = "import ".toList ++
      ('{' :: (" style ".toList ++ ['}']) ++
        (" from ".toList ++ ((Quoted.encode support.style.specifier).toList ++ ";".toList))) := by
    rw [styleImport_eq]
    simp
  have hfront : IsQuiet "import ".toList := isQuiet_literal (by decide)
  have hinside : IsQuiet " style ".toList := isQuiet_literal (by decide)
  have hfrom : IsQuiet " from ".toList := isQuiet_literal (by decide)
  have hend : IsQuiet ";".toList := isQuiet_literal (by decide)
  have himport : IsQuiet support.styleImport.toList := by
    rw [hstyle]
    exact hfront.append (hinside.inBraces.append (hfrom.append ((isQuiet_encode _).append hend)))
  have hname : "React".toList.all isPlainChar = true := by decide
  have hempty : IsQuiet "".toList := isQuiet_literal (by decide)
  rw [← hreact]
  refine isQuiet_textLines ?_
  simp only [List.forall_mem_cons]
  exact ⟨isQuiet_import (List.all_eq_true.1 hname) "react", himport, hempty, List.forall_mem_nil _⟩

/-- A closed `div` whose content is one string in braces, which stands for a text. -/
structure IsStringHole (source : List Char) (text : String) (element : Element) : Prop where
  name : element.name = "div"
  depth : element.depth = 0
  closed : ∃ tag string raw, element.close = some tag ∧ Covers source tag.span "</div>".toList ∧
    IsOneHole source ⟨element.span.stop, tag.span.start⟩ 1 (" ".toList ++ (string ++ " ".toList)) ∧
    Json.read (Utf8.encode string) = .ok (.text raw) ∧ raw.decode = .ok text

theorem exists_read_encode (text : String) :
    ∃ raw, Json.read (Utf8.encode (Quoted.encode text).toList) = .ok (.text raw) ∧
      raw.decode = .ok text := by
  obtain ⟨value, hread, hspells⟩ := Json.read_render (.text text)
  cases hspells with
  | text hdecode => exact ⟨_, hread, hdecode⟩

theorem reads_message {source : List Char} {c : Cursor} {rest : List Char} (message : String)
    (hin : c.IsIn source) (h : c.rest = '<' :: messageTail message ++ rest) :
    ∃ element, IsStringHole source message element ∧
      Reads (.element 0 c.offset) c.advance
        (.having () [element] (c.past ('<' :: messageTail message))) := by
  have hblank : IsQuiet " ".toList := isQuiet_literal (by decide)
  have hstyle : IsQuiet "style".toList := isQuiet_literal (by decide)
  have hinside := hblank.append ((isQuiet_encode message).append hblank)
  obtain ⟨raw, hjson, hdecode⟩ := exists_read_encode message
  rw [messageTail] at h ⊢
  generalize (Quoted.encode message).toList = string at h hinside hjson ⊢
  obtain ⟨element, closing, hname, hdepth, hclose, hclosing, hhole, hread⟩ :=
    hstyle.reads_holed 0 hinside hin h
  rw [chars_box, String.ofList_toList] at hname
  exact ⟨element, ⟨hname, hdepth, closing, string, raw, hclose, closing_box ▸ hclosing, hhole, hjson,
    hdecode⟩, hread⟩

theorem ofCode_errorText (support : Support) (reference : Reference) :
    ∃ element, Element.ofCode (errorText .jsx support reference) = .ok [element] ∧
      IsStringHole (errorText .jsx support reference).toList (notFoundMessage reference) element := by
  have htext := errorText_jsx support reference
  have hfunction : IsQuiet "export default function () ".toList := isQuiet_literal (by decide)
  have hlead : IsQuiet "\n  return ".toList := isQuiet_literal (by decide)
  have htrail : IsQuiet ";\n".toList := isQuiet_literal (by decide)
  have hback : IsQuiet "\n".toList := isQuiet_literal (by decide)
  have hfront := (isQuiet_imports support).append hfunction
  have hopens : ∀ before rest, opensElement ("\n  return ".toList.reverse ++ before)
      (messageTail (notFoundMessage reference) ++ rest) = true := by
    intro before rest
    refine opensElement_holed suitsCode_styleName ?_ _ _ rest
    simp [Lexical.operandFollows, Lexical.isWordChar, Ascii.isBlank, Ascii.isAscii,
      Lexical.wordsBeforeExpression]
  generalize errorText .jsx support reference = text at htext ⊢
  generalize (textLines ["import React from \"react\";", support.styleImport, ""]).toList ++
    "export default function () ".toList = front at htext hfront
  generalize "\n  return ".toList = lead at htext hlead hopens
  generalize ";\n".toList = trail at htext htrail
  generalize "\n".toList = back at htext hback
  have hstart : (Cursor.start text.toList).rest = text.toList := rfl
  have hbrace := Cursor.rest_past front (hstart.trans htext)
  have htag := Cursor.rest_past lead (Cursor.rest_past ['{'] hbrace)
  obtain ⟨element, hhole, hread⟩ := reads_message (notFoundMessage reference)
    ((((Cursor.isIn_start text.toList).drop _).drop _).drop _) htag
  exact ⟨element, ofCode_aroundElement hfront hlead htrail hback (fun before => hopens before _) htext
    hread, hhole⟩

end Code

/--
**Messages show a reference as it is.** Whatever its texts are, in markup the message stands between
the tags of the one `div` of a template, without a character that markup would read and so that it is
decoded to just that text; in code it is one string in the one hole of a `div`.
-/
theorem messages_verbatim (known : Entity.NamedChars) (support : Support) (reference : Reference) :
    let message := "Component (tagName = " ++ reference.tag ++ ", namespace = " ++ reference.space ++
      ", version = " ++ reference.version ++ ") not found."
    (∃ outer inner shown, Element.ofMarkup (errorText .vue support reference) = [outer, inner] ∧
      IsTemplateText (errorText .vue support reference).toList shown outer inner ∧
      (∀ ch ∈ ['<', '{', '}'], ch ∉ shown) ∧
      Entity.decodeContent known shown = message.toList) ∧
    ∃ element, Element.ofCode (errorText .jsx support reference) = .ok [element] ∧
      IsStringHole (errorText .jsx support reference).toList message element := by
  intro message
  have hmessage : message = notFoundMessage reference := rfl
  clear_value message
  subst hmessage
  have htext := errorText_vue support reference
  have hshown := chars_content (notFoundMessage reference)
  obtain ⟨outer, inner, helements, htemplate⟩ :=
    messageForest_elements (content (notFoundMessage reference))
  rw [← ofMarkup_of_forest htext] at helements
  rw [← htext, hshown] at htemplate
  refine ⟨⟨outer, inner, _, helements, htemplate, fun ch hch => ?_, ?_⟩,
    ofCode_errorText support reference⟩
  · exact Entity.notMem_contentText hch (notFoundMessage reference)
  · exact Entity.decodeContent_contentText (notFoundMessage reference)

/-- A reference whose texts look like tags, entities and interpolations. -/
def taglikeReference : Reference :=
  ⟨"<a>", "&amp;", "\x7b\x7bx\x7d\x7d"⟩

theorem messages_verbatim_of_taglike :
    let support : Support := ⟨⟨"/w"⟩, "r"⟩
    let message :=
      "Component (tagName = <a>, namespace = &amp;, version = \x7b\x7bx\x7d\x7d) not found."
    (∃ outer inner shown,
      Element.ofMarkup (errorText .vue support taglikeReference) = [outer, inner] ∧
      IsTemplateText (errorText .vue support taglikeReference).toList shown outer inner ∧
      (∀ ch ∈ ['<', '{', '}'], ch ∉ shown) ∧
      Entity.decodeContent .predefined shown = message.toList) ∧
    ∃ element, Element.ofCode (errorText .jsx support taglikeReference) = .ok [element] ∧
      IsStringHole (errorText .jsx support taglikeReference).toList message element := by
  have hmessage : "Component (tagName = " ++ taglikeReference.tag ++ ", namespace = " ++
      taglikeReference.space ++ ", version = " ++ taglikeReference.version ++ ") not found." =
        "Component (tagName = <a>, namespace = &amp;, version = \x7b\x7bx\x7d\x7d) not found." := by
    decide
  have hverbatim := messages_verbatim .predefined ⟨⟨"/w"⟩, "r"⟩ taglikeReference
  rw [hmessage] at hverbatim
  exact hverbatim

end ComponentTags
