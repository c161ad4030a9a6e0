import ComponentTags.Proofs.Artifact.Shapes
import ComponentTags.Proofs.Element.QuietCode
import ComponentTags.Proofs.Element.TagStructure
import ComponentTags.Proofs.Plan.NewTags

/-!
The elements of an entry in code. Whatever the names, the paths and the keys are that an entry is made
of, none of them leaves its string or its attribute: what is read back is the error boundary, with the
texts of the reference, and inside it the component.
-/

namespace ComponentTags

/-! ### The tags of an entry -/

namespace EntryTags

def boundary : TagName :=
  .of "ErrorBoundary".toList (by decide)

def renderer : TagName :=
  .of "RenderCom".toList (by decide)

def spaceName : AttributeName where
  chars := "namespace".toList
  all := List.all_eq_true.1 rfl
  nonempty := by decide

def versionName : AttributeName where
  chars := "version".toList
  all := List.all_eq_true.1 rfl
  nonempty := by decide

def environmentName : AttributeName where
  chars := "env".toList
  all := List.all_eq_true.1 rfl
  nonempty := by decide

theorem chars_boundary : boundary.chars = "ErrorBoundary".toList :=
  TagName.chars_of _

theorem chars_renderer : renderer.chars = "RenderCom".toList :=
  TagName.chars_of _

/-- A text as the value of an attribute, in double quotes. -/
def value (text : String) : Run (· != Quote.double.char) where
  chars := (Entity.attributeText text).toList
  all := Entity.ne_quote_of_mem_attributeText

theorem chars_value (text : String) : (value text).chars = (Entity.attributeText text).toList := by
  rw [value]

theorem suitsCode_spaceName : spaceName.SuitsCode :=
  ⟨by decide, by decide⟩

theorem suitsCode_versionName : versionName.SuitsCode :=
  ⟨by decide, by decide⟩

def boundaryAttributes (space version : Run (· != Quote.double.char)) : List CodeAttribute :=
  [.plain (.quoted spaceName .double space) suitsCode_spaceName,
   .plain (.quoted versionName .double version) suitsCode_versionName]

def environmentLine : String :=
  "          renderCom: (json, opts) => renderCom(json, opts, comDefs),"

/-- What stands in the braces of the environment, without the outer ones. -/
def environment : List Char :=
  '{' :: ('\n' :: (environmentLine.toList ++ "\n        ".toList) ++ ['}'])

end EntryTags

open EntryTags

/-- The lines of an entry that stand before its function. -/
def entryPreamble (support : Support) (companion : Path) (registrations : List Registration) :
    List String :=
  ["import React from \"react\";",
   importLine "ErrorBoundary" support.errorBoundary,
   importLine "renderCom" support.renderFunction,
   importLine "RenderCom" companion]
  ++ registryLines registrations ++ ["", ""]

def functionLines : List String :=
  ["export default function () \x7b",
   "  return ("]

def boundaryLine (space version : String) : String :=
  "    <ErrorBoundary namespace=\"" ++ space ++ "\" version=\"" ++ version ++ "\">"

def rendererLines : List String :=
  ["      <RenderCom",
   "        env=\x7b\x7b",
   environmentLine,
   "        \x7d\x7d",
   "      />",
   "    </ErrorBoundary>",
   "  );",
   "\x7d"]

/-- What stands behind the `<` of the component's tag. -/
def rendererTail : List Char :=
  renderer.chars ++
    singleAttributeChars "\n        ".toList environmentName environment "\n      ".toList

def boundaryOpening (space version : Run (· != Quote.double.char)) : List Char :=
  openingTagChars boundary (boundaryAttributes space version)

/-- What stands in the boundary, with its closing tag. -/
def boundaryContent : List Char :=
  onlyChildChars boundary "\n      ".toList rendererTail "\n    ".toList

section Texts

theorem boundaryLine_eq (space version : Run (· != Quote.double.char)) (spaceText versionText : String)
    (hspace : spaceText.toList = space.chars) (hversion : versionText.toList = version.chars) :
    (boundaryLine spaceText versionText).toList = "    ".toList ++ boundaryOpening space version := by
  have hspaceName : spaceName.chars = "namespace".toList := rfl
  have hversionName : versionName.chars = "version".toList := rfl
  unfold boundaryLine
  simp [boundaryOpening, openingTagChars, hspace, hversion, chars_boundary, hspaceName, hversionName,
    boundaryAttributes, attributesChars, CodeAttribute.chars, PlainAttribute.chars, PlainAttribute.name,
    PlainAttribute.valueChars, Quote.around, Quote.char, tagEnd]

theorem rendererLines_eq : '\n' :: (textLines rendererLines).toList =
    boundaryContent ++ ("\n  );\n".toList ++ '}' :: "\n".toList) := by
  have hname : environmentName.chars = "env".toList := rfl
  simp [rendererLines, textLines, boundaryContent, onlyChildChars, rendererTail,
    singleAttributeChars, chars_boundary, chars_renderer, hname, bracesChars, environment, tagEnd,
    TagName.closingChars]

/-- An entry of compiled code: its lines before the function, then the function with its tags. -/
theorem jsxEntryText_eq (support : Support) (reference : Reference) (companion : Path)
    {payload : Payload} (hkind : payload.kind = .compiled) (registrations : List Registration) :
    (jsxEntryText support reference companion payload registrations).toList =
      (textLines (entryPreamble support companion registrations)).toList ++
        ("export default function () ".toList ++ ('{' :: ("\n  return (\n    ".toList ++
          (boundaryOpening (value reference.space) (value reference.version) ++
            (boundaryContent ++ ("\n  );\n".toList ++ '}' :: "\n".toList)))))) := by
  let line :=
    boundaryLine (Entity.attributeText reference.space) (Entity.attributeText reference.version)
  have hlines : jsxEntryText support reference companion payload registrations =
      textLines (entryPreamble support companion registrations ++
        (functionLines ++ line :: rendererLines)) := by
    unfold jsxEntryText companionLines runtimeLines
    rw [hkind]
    simp only [entryPreamble, functionLines, rendererLines, List.append_assoc, List.cons_append,
      List.nil_append]
    rfl
  have hopening : (textLines functionLines).toList ++ "    ".toList =
      "export default function () ".toList ++ ('{' :: "\n  return (\n    ".toList) := by
    simp [functionLines, textLines]
  have hline : line.toList = "    ".toList ++
      boundaryOpening (value reference.space) (value reference.version) :=
    boundaryLine_eq (value reference.space) (value reference.version) _ _
      (chars_value _).symm (chars_value _).symm
  rw [hlines, textLines_append, textLines_append, textLines_cons, hline, rendererLines_eq,
    List.append_assoc "    ".toList, ← List.append_assoc (textLines functionLines).toList, hopening]
  simp only [List.append_assoc, List.cons_append]

end Texts

/-! ### Lines before the function -/

/-- A registration under a name that code can have. -/
def Registration.IsIdentified (registration : Registration) : Prop :=
  ∀ ch ∈ registration.identifier.toList, isIdentifierChar ch = true

theorem Registration.IsNamed.isIdentified {registration : Registration} (h : registration.IsNamed) :
    registration.IsIdentified := by
  obtain ⟨naming, reference, hproper, heq⟩ := h.exists_naming
  obtain ⟨front, hidentifier, -, hchars⟩ := hproper.exists_identifier reference
  intro ch hch
  rw [heq, hidentifier, List.mem_append, List.mem_cons] at hch
  rcases hch with hch | rfl | hch
  · exact hchars ch (List.mem_append_left _ hch)
  · decide
  · exact hchars ch (List.mem_append_right _ hch)

section Preamble

variable {registration : Registration} {registrations : List Registration}

theorem isQuiet_literal {text : String} (h : text.toList.all isPlainChar = true) :
    IsQuiet text.toList :=
  isQuiet_plain (List.all_eq_true.1 h)

theorem isQuiet_textLines {lines : List String} (h : ∀ line ∈ lines, IsQuiet line.toList) :
    IsQuiet (textLines lines).toList := by
  induction lines with
  | nil => exact isQuiet_nil
  | cons line lines ih =>
      obtain ⟨hline, hlines⟩ := List.forall_mem_cons.1 h
      have hbreak : IsQuiet ['\n'] := isQuiet_plain (List.all_eq_true.1 rfl)
      rw [textLines_cons]
      exact hline.append (hbreak.append (ih hlines))

theorem Registration.IsIdentified.isPlain (h : registration.IsIdentified) :
    ∀ ch ∈ registration.identifier.toList, isPlainChar ch = true := by
  intro ch hch
  have hidentifier := h ch hch
  simp only [isIdentifierChar, Bool.or_eq_true] at hidentifier
  refine isPlainChar_of_isWordChar ?_
  rcases hidentifier with (hletter | hline) | hdollar
  · simp [Lexical.isWordChar, hletter]
  · simp [Lexical.isWordChar, hline]
  · simp [Lexical.isWordChar, hdollar]

theorem isQuiet_import {name : String} (hname : ∀ ch ∈ name.toList, isPlainChar ch = true)
    (specifier : String) : IsQuiet (Import.text { name, specifier }).toList := by
  unfold Import.text
  simp only [String.toList_append]
  have hfront : IsQuiet "import ".toList := isQuiet_literal (by decide)
  have hfrom : IsQuiet " from ".toList := isQuiet_literal (by decide)
  have hend : IsQuiet ";".toList := isQuiet_literal (by decide)
  exact (((hfront.append (isQuiet_plain hname)).append hfrom).append (isQuiet_encode _)).append hend

def registrationLines (registration : Registration) : List String :=
  ["comDefs[" ++ Quoted.encode registration.key ++ "] = \x7b",
   "  runtime: " ++ registration.identifier ++ ",",
   "\x7d;"]

/-- The lines of a registration open braces and close them. -/
theorem isQuiet_registrationLines (h : registration.IsIdentified) :
    IsQuiet (textLines (registrationLines registration)).toList := by
  have hlines : (textLines (registrationLines registration)).toList =
      "comDefs[".toList ++ ((Quoted.encode registration.key).toList ++ ("] = ".toList ++
        ('{' :: ("\n  runtime: ".toList ++ (registration.identifier.toList ++ ",\n".toList) ++ ['}'])
          ++ ";\n".toList))) := by
    simp [registrationLines, textLines]
  have hfront : IsQuiet "comDefs[".toList := isQuiet_literal (by decide)
  have hopen : IsQuiet "] = ".toList := isQuiet_literal (by decide)
  have hword : IsQuiet "\n  runtime: ".toList :=
    isQuiet_literal (by decide)
  have hcomma : IsQuiet ",\n".toList := isQuiet_literal (by decide)
  have hend : IsQuiet ";\n".toList := isQuiet_literal (by decide)
  have hinside := hword.append ((isQuiet_plain h.isPlain).append hcomma)
  rw [hlines]
  exact hfront.append ((isQuiet_encode _).append (hopen.append (hinside.inBraces.append hend)))

theorem isQuiet_registrations (h : ∀ registration ∈ registrations, registration.IsIdentified) :
    IsQuiet (textLines (registrations.flatMap registrationLines)).toList := by
  induction registrations with
  | nil => exact isQuiet_nil
  | cons registration registrations ih =>
      obtain ⟨hregistration, hothers⟩ := List.forall_mem_cons.1 h
      rw [List.flatMap_cons, textLines_append]
      exact (isQuiet_registrationLines hregistration).append (ih hothers)

theorem isQuiet_registryLines (h : ∀ registration ∈ registrations, registration.IsIdentified) :
    IsQuiet (textLines (registryLines registrations)).toList := by
  let imports := registrations.map fun registration =>
    Import.text { name := registration.identifier, specifier := registration.specifier }
  let object := ["", "const comDefs = \x7b\x7d;"]
  have himports : IsQuiet (textLines imports).toList := by
    refine isQuiet_textLines (List.forall_mem_map.2 fun registration hmem => ?_)
    exact isQuiet_import (h registration hmem).isPlain _
  have hobject : IsQuiet (textLines object).toList := by
    have htext : (textLines object).toList =
        "\nconst comDefs = ".toList ++ ('{' :: ([] ++ ['}']) ++ ";\n".toList) := by
      decide
    have hfront : IsQuiet "\nconst comDefs = ".toList := isQuiet_literal (by decide)
    have hend : IsQuiet ";\n".toList := isQuiet_literal (by decide)
    rw [htext]
    exact hfront.append (isQuiet_nil.inBraces.append hend)
  have hlines : registryLines registrations =
      imports ++ (object ++ registrations.flatMap registrationLines) := List.append_assoc _ _ _
  rw [hlines, textLines_append, textLines_append]
  exact himports.append (hobject.append (isQuiet_registrations h))

/-- **Nothing that stands before the function of an entry is an element.** -/
theorem isQuiet_entryPreamble (support : Support) (companion : Path)
    (h : ∀ registration ∈ registrations, registration.IsIdentified) :
    IsQuiet (textLines (entryPreamble support companion registrations)).toList := by
  have hreact : Import.text { name := "React", specifier := "react" } =
      "import React from \"react\";" := by
    decide
  have hnames : ∀ name ∈ ["React", "ErrorBoundary", "renderCom", "RenderCom"],
      name.toList.all isPlainChar = true := by
    decide
  have hplain : ∀ name ∈ ["React", "ErrorBoundary", "renderCom", "RenderCom"], ∀ specifier,
      IsQuiet (Import.text { name, specifier }).toList :=
    fun name hname => isQuiet_import (List.all_eq_true.1 (hnames name hname))
  have himports : IsQuiet (textLines
      [Import.text { name := "React", specifier := "react" },
       importLine "ErrorBoundary" support.errorBoundary,
       importLine "renderCom" support.renderFunction,
       importLine "RenderCom" companion]).toList := by
    refine isQuiet_textLines ?_
    simp only [List.forall_mem_cons]
    exact ⟨hplain _ (by simp) _, hplain _ (by simp) _, hplain _ (by simp) _,
      hplain _ (by simp) _, List.forall_mem_nil _⟩
  have hbreaks : IsQuiet (textLines ["", ""]).toList := isQuiet_literal (by decide)
  rw [entryPreamble, ← hreact, textLines_append, textLines_append]
  exact (himports.append (isQuiet_registryLines h)).append hbreaks

end Preamble

/-! ### What is read -/

section Readings

variable {c : Cursor} {rest : List Char} {depth start : Nat}

theorem isQuiet_environment : IsQuiet environment := by
  have hbreak : IsQuiet ['\n'] := isQuiet_plain (List.all_eq_true.1 rfl)
  have hline : IsQuiet environmentLine.toList := isQuiet_literal (by decide)
  have hblanks : IsQuiet "\n        ".toList := isQuiet_literal (by decide)
  exact (hbreak.append (hline.append hblanks)).inBraces

/-- The error boundary of an entry, with the texts of its reference, and the component inside it. -/
structure IsEntryPair (source : List Char) (reference : Reference) (outer inner : Element) :
    Prop where
  names : outer.name = "ErrorBoundary" ∧ inner.name = "RenderCom"
  values : ∃ space version,
    outer.values = [("namespace", some (.literal space)), ("version", some (.literal version))] ∧
      Entity.decode space.toList = reference.space.toList ∧
      Entity.decode version.toList = reference.version.toList
  inside : outer.span.stop ≤ inner.span.start ∧ inner.depth = outer.depth + 1
  empty : inner.selfClosing = true ∧ inner.close = none
  closed : ∃ tag, outer.close = some tag ∧ Covers source tag.span "</ErrorBoundary>".toList ∧
    inner.span.stop ≤ tag.span.start

/-- What is read between the tags of the boundary, up to the end of its closing tag. -/
theorem reads_boundaryContent {source : List Char} (depth : Nat) (hin : c.IsIn source)
    (h : c.rest = boundaryContent ++ rest) :
    ∃ inner closing, IsOnlyChild source boundary renderer depth c.offset inner closing ∧
      Reads (.children depth) c (.having (some closing) [inner] (c.past boundaryContent)) :=
  isQuiet_environment.reads_onlyChild depth (by decide)
    (List.all_eq_true.1 (by decide)) (List.all_eq_true.1 (by decide))
    (List.all_eq_true.1 (by decide)) (List.all_eq_true.1 (by decide)) hin h

/-- The values that are read of the boundary's attributes. -/
theorem boundary_values (space version : Run (· != Quote.double.char)) (start : Nat) :
    (attributesPlaced start (boundaryAttributes space version)).map
        (fun attr => (attr.name, attr.value)) =
      [("namespace", some (.literal (String.ofList space.chars))),
       ("version", some (.literal (String.ofList version.chars)))] := by
  have hspaceName : String.ofList spaceName.chars = "namespace" := String.ofList_toList
  have hversionName : String.ofList versionName.chars = "version" := String.ofList_toList
  simp [boundaryAttributes, attributesPlaced, CodeAttribute.placed?, PlainAttribute.placed,
    AttributeName.placed, PlainAttribute.name, PlainAttribute.value, hspaceName, hversionName]

theorem reads_boundary {source : List Char} (depth : Nat)
    (space version : Run (· != Quote.double.char)) (hin : c.IsIn source)
    (h : c.rest = boundaryOpening space version ++ (boundaryContent ++ rest)) :
    ∃ (outer inner : Element) (closing : ClosingTag),
      outer.name = "ErrorBoundary" ∧ outer.depth = depth ∧
      outer.values = [("namespace", some (.literal (String.ofList space.chars))),
        ("version", some (.literal (String.ofList version.chars)))] ∧
      outer.close = some closing ∧
      IsOnlyChild source boundary renderer depth outer.span.stop inner closing ∧
      Reads (.element depth c.offset) c.advance
        (.having () [outer, inner] (c.past (boundaryOpening space version ++ boundaryContent))) := by
  have hrest : (c.past (boundaryOpening space version)).rest = boundaryContent ++ rest :=
    Cursor.rest_past _ h
  obtain ⟨inner, closing, hinner, hinside⟩ := reads_boundaryContent depth
    (hin.drop (boundaryOpening space version).length) hrest
  have hnone : ∀ depth start,
      attributesElements depth start (boundaryAttributes space version) = [] := fun _ _ => rfl
  obtain ⟨outer, hname, hdepth, hattributes, hstop, hclose, hread⟩ := Reads.opened hnone h hinside
  rw [chars_boundary, String.ofList_toList] at hname
  refine ⟨outer, inner, closing, hname, hdepth, ?_, hclose, ?_, hread⟩
  · rw [Element.values, hattributes]
    exact boundary_values space version _
  · rw [hstop]
    exact hinner

end Readings

/--
**An entry cannot be injected into.** Whatever texts a reference has, and whatever the paths and the
registrations are, an entry of compiled code is read back as two elements: the error boundary with
just those texts, which its own closing tag closes, and inside it the component.
-/
theorem jsx_entry_elements (support : Support) (reference : Reference) (companion : Path)
    {payload : Payload} (hkind : payload.kind = .compiled) {registrations : List Registration}
    (hnames : ∀ registration ∈ registrations, registration.IsIdentified) :
    ∃ outer inner,
      Element.ofCode (jsxEntryText support reference companion payload registrations) =
          .ok [outer, inner] ∧
        IsEntryPair (jsxEntryText support reference companion payload registrations).toList reference
          outer inner := by
  have htext := jsxEntryText_eq support reference companion hkind registrations
  have hpreamble := isQuiet_entryPreamble support companion hnames
  have hfunction : IsQuiet "export default function () ".toList := isQuiet_literal (by decide)
  have hlead : IsQuiet "\n  return (\n    ".toList := isQuiet_literal (by decide)
  have htrail : IsQuiet "\n  );\n".toList := isQuiet_literal (by decide)
  have hback : IsQuiet "\n".toList := isQuiet_literal (by decide)
  have hbefore : ∀ before, Lexical.operandFollows ("\n  return (\n    ".toList.reverse ++ before) =
      true := by
    intro before
    simp [Lexical.operandFollows, Lexical.isWordChar, Ascii.isBlank, Ascii.isAscii]
  have hfront := hpreamble.append hfunction
  generalize jsxEntryText support reference companion payload registrations = text at htext ⊢
  rw [← List.append_assoc] at htext
  generalize (textLines (entryPreamble support companion registrations)).toList ++
    "export default function () ".toList = front at htext hfront
  generalize "\n  return (\n    ".toList = lead at htext hlead hbefore
  generalize "\n  );\n".toList = trail at htext htrail
  generalize "\n".toList = back at htext hback
  -- The readings are the same for all texts with these parts, so the parts need not be opened again.
  have hstart : (Cursor.start text.toList).rest = text.toList := rfl
  have hbrace := Cursor.rest_past front (hstart.trans htext)
  have htag := Cursor.rest_past lead (Cursor.rest_past ['{'] hbrace)
  obtain ⟨outer, inner, closing, hname, hdepth, hvalues, hclose, hinner, hread⟩ :=
    reads_boundary 0 _ _ ((((Cursor.isIn_start text.toList).drop _).drop _).drop _) htag
  have hdecode : ∀ text, Entity.decode (String.ofList (value text).chars).toList = text.toList := by
    intro text
    rw [String.toList_ofList, chars_value]
    exact Entity.decode_attributeText text
  refine ⟨outer, inner, ofCode_inBraces hfront hlead htrail hback hbefore htext hread, ?_⟩
  exact {
    names := ⟨hname, hinner.named.trans (by rw [chars_renderer, String.ofList_toList])⟩
    values := ⟨_, _, hvalues, hdecode _, hdecode _⟩
    inside := ⟨hinner.behind, hdepth ▸ hinner.deeper⟩
    empty := hinner.empty
    closed := ⟨closing, hclose, hinner.closed, hinner.before⟩ }

/-- A reference that tries to leave its attributes and strings. -/
def hostileReference : Reference where
  tag := "Widget"
  space := "\"><A b=\x7bc\x7d/>&lt;\\\n"
  version := "</ErrorBoundary>'/*\x60$\x7b"

def hostileRegistration : Registration :=
  .of hostileReference ((Naming.of ⟨"/a\"b\\"⟩ Dialect.jsx.artifactExtension "Cc").identity
    hostileReference)

theorem hostileRegistration_isNamed : hostileRegistration.IsNamed :=
  ⟨_, hostileReference, Naming.isProper_of _ .jsx _, rfl⟩

set_option maxRecDepth 100000 in
theorem jsx_entry_elements_of_hostile :
    (Payload.mk "var a = <B/>;" []).kind = .compiled ∧ ∃ outer inner,
      Element.ofCode (jsxEntryText ⟨⟨"/\n\"</A>"⟩, "r"⟩ hostileReference ⟨"/<\"\\"⟩
          ⟨"var a = <B/>;", []⟩ [hostileRegistration]) = .ok [outer, inner] ∧
        IsEntryPair (jsxEntryText ⟨⟨"/\n\"</A>"⟩, "r"⟩ hostileReference ⟨"/<\"\\"⟩
          ⟨"var a = <B/>;", []⟩ [hostileRegistration]).toList hostileReference outer inner := by
  have hkind : (Payload.mk "var a = <B/>;" []).kind = .compiled := by decide
  refine ⟨hkind, jsx_entry_elements _ _ _ hkind ?_⟩
  intro registration hmem
  obtain rfl := List.mem_singleton.1 hmem
  exact hostileRegistration_isNamed.isIdentified

end ComponentTags
