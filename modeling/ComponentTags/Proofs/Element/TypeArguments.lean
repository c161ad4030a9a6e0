import Mathlib.Data.List.Nodup
import ComponentTags.Plan.Definition
import ComponentTags.Proofs.Element.CodeTrees
import ComponentTags.Proofs.Element.OpenExpressions
import ComponentTags.Proofs.Element.TagStructure
import ComponentTags.Proofs.Plan.Definitions

/-!
Type arguments of elements. Types may stand in angle brackets between the name of an element and its
attributes. Reading goes past the first bracket, takes the words of the types for attributes without
values, and takes the next bracket that closes for the end of the tag.
-/

namespace ComponentTags

/-- A character of the name of a type: one of a word, or the dot between two. -/
def isTypeNameChar (ch : Char) : Bool :=
  Lexical.isWordChar ch || ch == '.'

/-- A type that stands in angle brackets, with arguments of its own and the blanks before it. -/
inductive TypeArgument where
  | mk (blanks : Run Ascii.isBlank) (name : Run isTypeNameChar) (nonempty : name.chars ≠ [])
      (arguments : List TypeArgument)

/-! ### Texts -/

mutual

def TypeArgument.chars : TypeArgument → List Char
  | .mk blanks name _ arguments => blanks.chars ++ (name.chars ++ typeArgumentsChars arguments)

/-- Types in angle brackets; without a type there are no brackets. -/
def typeArgumentsChars : List TypeArgument → List Char
  | [] => []
  | first :: others => '<' :: (first.chars ++ (furtherTypesChars others ++ ['>']))

def furtherTypesChars : List TypeArgument → List Char
  | [] => []
  | next :: others => ',' :: (next.chars ++ furtherTypesChars others)

end

/-- An element that may have type arguments; without children it closes itself. -/
structure TypedElement where
  name : TagName
  arguments : List TypeArgument
  attributes : List CodeAttribute
  children? : Option (List CodeChild)

namespace TypedElement

/-- The same element without its type arguments. -/
def untyped (element : TypedElement) : CodeElement :=
  match element.children? with
  | none => .empty element.name element.attributes
  | some children => .full element.name element.attributes children

/-- What stands between the name and the end of the opening tag. -/
def insideChars (element : TypedElement) : List Char :=
  typeArgumentsChars element.arguments ++ attributesChars element.attributes

/-- What stands behind the opening tag. -/
def contentChars (element : TypedElement) : List Char :=
  match element.children? with
  | none => []
  | some children => childrenChars children ++ element.name.closingChars

/-- How an element is written, behind its `<`. -/
def tail (element : TypedElement) : List Char :=
  element.name.chars ++
    (element.insideChars ++ (tagEnd element.children?.isNone ++ element.contentChars))

/-- The element that is written from an offset on: its attributes are those behind the type arguments. -/
def written (element : TypedElement) (depth start : Nat) : Element :=
  let content := start + 1 +
    utf8Length (element.name.chars ++ (element.insideChars ++ tagEnd element.children?.isNone))
  element.name.placed element.insideChars
    (attributesPlaced
      (start + 1 + utf8Length (element.name.chars ++ typeArgumentsChars element.arguments))
      element.attributes)
    element.children?.isNone depth start
    (element.children?.map fun children =>
      element.name.placedClosing (content + utf8Length (childrenChars children)))

end TypedElement

section Texts

/-- A character of types in angle brackets. -/
def isTypeChar (ch : Char) : Bool :=
  Lexical.isAttributeNameChar ch || Ascii.isBlank ch || ch == '<' || ch == '>'

theorem isAttributeNameChar_of_isWordChar {ch : Char} (h : Lexical.isWordChar ch = true) :
    Lexical.isAttributeNameChar ch = true := by
  rw [Lexical.isAttributeNameChar, Bool.and_eq_true, Bool.not_eq_true', Bool.not_eq_true']
  constructor
  · refine Bool.eq_false_iff.2 fun hblank => ?_
    simp only [Ascii.isBlank, Bool.or_eq_true, beq_iff_eq, or_assoc] at hblank
    rcases hblank with rfl | rfl | rfl | rfl | rfl <;> exact absurd h (by decide)
  · refine Bool.eq_false_iff.2 fun hmem => ?_
    simp only [List.contains_cons, List.contains_nil, Bool.or_false, Bool.or_eq_true,
      beq_iff_eq] at hmem
    rcases hmem with rfl | rfl | rfl | rfl | rfl | rfl | rfl | rfl <;> exact absurd h (by decide)

theorem isTypeChar_of_isTypeNameChar {ch : Char} (h : isTypeNameChar ch = true) :
    isTypeChar ch = true := by
  rcases Bool.or_eq_true_iff.1 h with hword | hdot
  · simp [isTypeChar, isAttributeNameChar_of_isWordChar hword]
  · obtain rfl := beq_iff_eq.1 hdot
    decide

mutual

theorem TypeArgument.isTypeChar (argument : TypeArgument) :
    ∀ ch ∈ argument.chars, ComponentTags.isTypeChar ch = true := by
  match argument with
  | .mk blanks name nonempty arguments =>
      rw [TypeArgument.chars]
      simp only [List.forall_mem_append]
      refine ⟨fun ch hch => ?_, fun ch hch => ?_, isTypeChar_typeArguments arguments⟩
      · simp [ComponentTags.isTypeChar, blanks.all ch hch]
      · exact isTypeChar_of_isTypeNameChar (name.all ch hch)

theorem isTypeChar_typeArguments (arguments : List TypeArgument) :
    ∀ ch ∈ typeArgumentsChars arguments, ComponentTags.isTypeChar ch = true := by
  match arguments with
  | [] => exact nofun
  | first :: others =>
      rw [typeArgumentsChars]
      simp only [List.forall_mem_cons, List.forall_mem_append]
      exact ⟨by decide, first.isTypeChar, isTypeChar_furtherTypes others, by decide, nofun⟩

theorem isTypeChar_furtherTypes (arguments : List TypeArgument) :
    ∀ ch ∈ furtherTypesChars arguments, ComponentTags.isTypeChar ch = true := by
  match arguments with
  | [] => exact nofun
  | next :: others =>
      rw [furtherTypesChars]
      simp only [List.forall_mem_cons, List.forall_mem_append]
      exact ⟨by decide, next.isTypeChar, isTypeChar_furtherTypes others⟩

end

/-- A text begins with all the characters of a class that it has there. -/
theorem exists_run (p : Char → Bool) (text : List Char) :
    ∃ (run : Run p) (more : List Char), text = run.chars ++ more ∧ StopsAt p more := by
  refine ⟨⟨text.takeWhile p, fun ch => List.all_eq_true.1 List.all_takeWhile ch⟩, text.dropWhile p,
    List.takeWhile_append_dropWhile.symm, fun ch hch => ?_⟩
  have hstops := List.head?_dropWhile_not p text
  rw [Option.mem_def.1 hch] at hstops
  exact Bool.eq_false_iff.2 (by simpa using hstops)

/-- The first bracket that closes belongs to the types. -/
theorem exists_front_of_typeArguments {arguments : List TypeArgument} (h : arguments ≠ []) :
    ∃ front back, typeArgumentsChars arguments = '<' :: (front ++ '>' :: back) ∧
      ∀ ch ∈ front, isTypeChar ch = true ∧ ch ≠ '>' := by
  obtain ⟨first, others, rfl⟩ := List.exists_cons_of_ne_nil h
  have hall := isTypeChar_typeArguments (first :: others)
  rw [typeArgumentsChars, ← List.append_assoc] at hall ⊢
  generalize first.chars ++ furtherTypesChars others = inside at hall ⊢
  obtain ⟨front, more, hsplit, hstops⟩ := exists_run (· != '>') (inside ++ ['>'])
  cases more with
  | nil =>
      have hmem : '>' ∈ front.chars := by
        rw [← List.append_nil front.chars, ← hsplit]
        simp
      exact absurd (front.all _ hmem) (by decide)
  | cons ch back =>
      obtain rfl : ch = '>' := by simpa using hstops ch rfl
      refine ⟨front.chars, back, by rw [hsplit], fun ch hch => ⟨hall ch ?_, ?_⟩⟩
      · rw [hsplit]
        exact List.mem_cons_of_mem _ (List.mem_append_left _ hch)
      · simpa using front.all ch hch

/-! ### What types are taken for -/

/-- A text of types up to the first bracket that closes, as the pieces that a tag is read in. -/
inductive IsTypeText : List Char → Prop where
  | blanks (blanks : Run Ascii.isBlank) : IsTypeText blanks.chars
  | bracket (blanks : Run Ascii.isBlank) {more : List Char} (hmore : IsTypeText more) :
      IsTypeText (blanks.chars ++ '<' :: more)
  | word (blanks : Run Ascii.isBlank) (name : AttributeName) {more : List Char}
      (hstops : StopsAt Lexical.isAttributeNameChar more) (hmore : IsTypeText more) :
      IsTypeText (blanks.chars ++ (name.chars ++ more))

theorem isTypeText_of_chars {text : List Char}
    (h : ∀ ch ∈ text, isTypeChar ch = true ∧ ch ≠ '>') : IsTypeText text := by
  obtain ⟨blanks, more, hsplit, hblank⟩ := exists_run Ascii.isBlank text
  cases more with
  | nil =>
      rw [hsplit, List.append_nil]
      exact .blanks blanks
  | cons ch more =>
      obtain ⟨htype, hclose⟩ := h ch (by simp [hsplit])
      by_cases hopen : ch = '<'
      · subst hopen
        rw [hsplit]
        exact .bracket blanks
          (isTypeText_of_chars fun other hother => h other (by simp [hsplit, hother]))
      · obtain ⟨word, others, hword, hstops⟩ := exists_run Lexical.isAttributeNameChar (ch :: more)
        have hne : word.chars ≠ [] := by
          intro hnil
          rw [hnil, List.nil_append] at hword
          have hch := hstops ch (by rw [← hword]; rfl)
          simp [isTypeChar, hblank ch rfl, hch, hopen, hclose] at htype
        have hpos := List.length_pos_iff.2 hne
        rw [hsplit, hword]
        exact .word blanks ⟨word, hne⟩ hstops
          (isTypeText_of_chars fun other hother => h other (by simp [hsplit, hword, hother]))
termination_by text.length
decreasing_by
  · simp only [hsplit, List.length_append, List.length_cons]
    omega
  · simp only [hsplit, hword, List.length_append]
    omega

variable {c : Cursor} {text rest : List Char} {depth attrsEnd : Nat}

/-- A word of a type has no value. -/
theorem IsTypeText.head?_ne_equals (htext : IsTypeText text) (h : c.rest = text ++ '>' :: rest) :
    (c.skipWhile Ascii.isBlank).rest.head? ≠ some '=' := by
  cases htext with
  | blanks blanks =>
      rw [Cursor.skipWhile_eq_past blanks.chars h blanks.all (stopsAt_cons (by decide)),
        Cursor.rest_past blanks.chars h]
      simp
  | bracket blanks hmore =>
      rw [List.append_assoc, List.cons_append] at h
      rw [Cursor.skipWhile_eq_past blanks.chars h blanks.all (stopsAt_cons (by decide)),
        Cursor.rest_past blanks.chars h]
      simp
  | word blanks name hstops hmore =>
      obtain ⟨ch, chars, hname, hblank, hequals⟩ := name.begins []
      rw [List.append_nil] at hname
      rw [hname, List.append_assoc, List.append_assoc, List.cons_append] at h
      rw [Cursor.skipWhile_eq_past blanks.chars h blanks.all (stopsAt_cons hblank),
        Cursor.rest_past blanks.chars h]
      simpa using hequals

/-- Words of types, up to the bracket that closes, are taken for attributes without values. -/
theorem IsTypeText.reads (htext : IsTypeText text) (depth attrsEnd : Nat) {c : Cursor}
    (h : c.rest = text ++ '>' :: rest) (hend : attrsEnd ≤ c.offset + utf8Length text) :
    ∃ body : TagBody,
      Reads (.tagBody .code depth attrsEnd) c (.found body (c.past (text ++ ['>']))) ∧
      body.selfClosing = false ∧ (∀ attr ∈ body.attributes, attr.value = none) ∧
      body.attrsEnd ≤ c.offset + utf8Length text := by
  induction htext generalizing c attrsEnd with
  | blanks blanks =>
      have hread : Reads (.tagBody .code depth attrsEnd) c
        (.found (.last attrsEnd false) (c.past (blanks.chars ++ tagEnd false))) :=
          .endingAfter blanks.all h
      exact ⟨.last attrsEnd false, hread, rfl, nofun, hend⟩
  | @bracket blanks more hmore ih =>
      have hall : c.rest = blanks.chars ++ ['<'] ++ (more ++ '>' :: rest) := by simp [h]
      have htext : blanks.chars ++ '<' :: more = blanks.chars ++ ['<'] ++ more := by simp
      rw [htext, utf8Length_append, ← Nat.add_assoc, ← Cursor.offset_past _ hall] at hend
      obtain ⟨body, hbody, hself, hbare, hle⟩ := ih attrsEnd (Cursor.rest_past _ hall) hend
      rw [Cursor.offset_past _ hall, Nat.add_assoc, ← utf8Length_append, ← htext] at hle
      refine ⟨body, ?_, hself, hbare, hle⟩
      rw [htext, List.append_assoc, Cursor.past_append]
      rw [Cursor.past_append c blanks.chars] at hbody ⊢
      rw [List.append_assoc] at h
      have hhere := Cursor.skipWhile_eq_past blanks.chars h blanks.all (stopsAt_cons (by decide))
      exact .bodySkip hhere.symm (Cursor.rest_past _ h) nofun (by decide) nofun (by decide) hbody
  | @word blanks name more hstops hmore ih =>
      have hall : c.rest = blanks.chars ++ name.chars ++ (more ++ '>' :: rest) := by simp [h]
      have hrest := Cursor.rest_past _ hall
      obtain ⟨body, hbody, hself, hbare, hle⟩ := ih _ hrest (Nat.le_add_right _ _)
      rw [Cursor.offset_past _ hall, Nat.add_assoc, ← utf8Length_append, List.append_assoc] at hle
      have hvalue : Reads (.attributeValue .code depth) (c.past (blanks.chars ++ name.chars))
        (.found none (c.past (blanks.chars ++ name.chars))) :=
          .valueNone (hmore.head?_ne_equals hrest)
      rw [← Cursor.past_append, List.append_assoc, ← List.append_assoc name.chars] at hbody
      have hthen : StopsAt Lexical.isAttributeNameChar (more ++ '>' :: rest) := by
        cases more with
        | nil => exact stopsAt_cons (by decide)
        | cons ch more => exact stopsAt_cons (hstops ch rfl)
      rw [List.append_assoc] at hall
      rw [Cursor.past_append] at hvalue hbody
      have hread : Reads (.tagBody .code depth attrsEnd) c _ :=
        .namedAfter blanks.all hall hthen hvalue hbody
      rw [Reading.found_andThen] at hread
      rw [List.append_assoc blanks.chars]
      exact ⟨_, hread, hself, List.forall_mem_cons.2 ⟨rfl, hbare⟩, hle⟩

/-! ### Elements in code -/

/-- An element that stands for another one of which only the name was read: all attributes that it has
are words of the types, and a further attribute goes between these. -/
structure TypedElement.IsCutOff (element : TypedElement) (start : Nat) (found : Element) : Prop where
  start_eq : found.span.start = start
  name : found.name = String.ofList element.name.chars
  isOpen : found.selfClosing = false
  bare : ∀ attr ∈ found.attributes, attr.value = none
  attrsEnd_lt : found.attrsEnd <
    start + 1 + utf8Length (element.name.chars ++ typeArgumentsChars element.arguments)

/-- Attributes without values give no definition. -/
theorem reference_ne_ok_of_bare {found : Element} (h : ∀ attr ∈ found.attributes, attr.value = none)
    (keyword : String) (reference : Reference) : found.reference keyword ≠ .ok reference := by
  intro hreference
  obtain ⟨-, text, ⟨attr, value, ⟨front, back, hfirst, -, -⟩, hvalue, -⟩, -⟩ :=
    reference_eq_iff.1 hreference
  have hnone := h attr (by simp [hfirst])
  rw [hvalue] at hnone
  cases hnone

variable {element : TypedElement}

theorem TypedElement.tail_eq_untyped (h : element.arguments = []) :
    element.tail = element.untyped.tail := by
  cases hchildren : element.children? <;>
    simp [TypedElement.tail, TypedElement.insideChars, TypedElement.contentChars,
      TypedElement.untyped, CodeElement.tail, typeArgumentsChars, h, hchildren]

theorem TypedElement.written_mem_untyped (h : element.arguments = []) (depth start : Nat) :
    element.written depth start ∈ element.untyped.elements depth start := by
  cases hchildren : element.children? <;>
    simp [TypedElement.written, TypedElement.insideChars,
      TypedElement.untyped, CodeElement.elements, typeArgumentsChars, h, hchildren]

/-- The bracket of type arguments does not make a tag name look like a type parameter. -/
theorem TypedElement.opensElement (element : TypedElement) {before : List Char}
    (hbefore : Lexical.operandFollows before = true) (rest : List Char) :
    ComponentTags.opensElement before (element.tail ++ rest) = true := by
  by_cases h : element.arguments = []
  · rw [tail_eq_untyped h]
    exact element.untyped.opensElement hbefore rest
  · obtain ⟨front, back, htypes, -⟩ := exists_front_of_typeArguments h
    have htail : element.tail ++ rest = element.name.chars ++ ('<' :: (front ++ ('>' :: back) ++
        (attributesChars element.attributes ++
          (tagEnd element.children?.isNone ++ (element.contentChars ++ rest))))) := by
      simp [TypedElement.tail, TypedElement.insideChars, htypes]
    rw [ComponentTags.opensElement, hbefore, htail,
      typeParametersFollow_tagName _ (stopsAt_cons (by decide)) rfl]
    simp [TagName.chars, Lexical.elementFollows, element.name.isStart]

/-- Reading an element with type arguments ends its tag at the first of their closing brackets. -/
theorem TypedElement.exists_isCutOff (hne : element.arguments ≠ []) (depth : Nat)
    (h : c.rest = '<' :: (element.tail ++ rest)) :
    ∃ found ∈ ((Task.element depth c.offset).read c.advance).elements,
      element.IsCutOff c.offset found := by
  obtain ⟨front, back, htypes, hfront⟩ := exists_front_of_typeArguments hne
  let afterName := c.advance.past element.name.chars
  let behind := back ++ (attributesChars element.attributes ++
    (tagEnd element.children?.isNone ++ (element.contentChars ++ rest)))
  have hopen : c.advance.rest = element.tail ++ rest := Cursor.rest_past ['<'] h
  have hstart : c.advance.offset = c.offset + 1 := Cursor.offset_past ['<'] h
  have hname : c.advance.rest = element.name.chars ++ ('<' :: front ++ '>' :: behind) := by
    simp [hopen, TypedElement.tail, TypedElement.insideChars, htypes, behind]
  have htext : IsTypeText ('<' :: front) :=
    isTypeText_of_chars (List.forall_mem_cons.2 ⟨by decide, hfront⟩)
  obtain ⟨body, hbody, hself, hbare, hle⟩ := htext.reads depth afterName.offset
    (Cursor.rest_past _ hname) (Nat.le_add_right _ _)
  have htaken : c.advance.rest.takeWhile Lexical.isNameChar = element.name.chars := by
    rw [hname]
    exact takeWhile_append_of_stopsAt element.name.isNameChar (stopsAt_cons (by decide))
  have hafter : afterName = c.advance.drop (c.advance.rest.takeWhile Lexical.isNameChar).length := by
    rw [htaken]
    rfl
  have hopening : Reads (.openingTag .code depth c.offset) c.advance _ := .openingTag hafter hbody
  have hread := Reads.elementFull hopening hself ((Task.children depth).reads _)
  rw [hread.read_eq]
  refine ⟨_, List.mem_append_left _ List.mem_cons_self, rfl, ?_, hself, hbare, ?_⟩
  · rw [← htaken]
    rfl
  · refine Nat.lt_of_le_of_lt hle ?_
    have hpos : 0 < utf8Length ('>' :: back) := Nat.pos_of_ne_zero fun hzero =>
      List.cons_ne_nil _ _ (utf8Length_eq_zero hzero)
    rw [Cursor.offset_past _ hname, hstart, htypes, utf8Length_append, ← List.cons_append,
      utf8Length_append]
    omega

/-- **Type arguments.** Wherever an element stands in a module for an operand, it is found with its
attributes exactly if it has no type arguments. With type arguments, what is found in its place is cut
off in these, and gives no definition. -/
theorem written_mem_iff_no_arguments {source : String} {elements : List Element}
    {inBraces inside : Bool} {openBraces depth : Nat} (hread : Element.ofCode source = .ok elements)
    (hcomes : Comes (.code false 0 0) (.start source.toList) inside
      (.code inBraces openBraces depth) c)
    (hoperand : Lexical.operandFollows c.before = true)
    (h : c.rest = '<' :: (element.tail ++ rest)) :
    (element.written depth c.offset ∈ elements ↔ element.arguments = []) ∧
      (element.arguments ≠ [] → ∃ found ∈ elements, element.IsCutOff c.offset found ∧
        ∀ keyword reference, found.reference keyword ≠ .ok reference) := by
  have hcode := Reads.codeElement h (element.opensElement hoperand rest)
    ((Task.element depth c.offset).reads _) ((Task.code inBraces openBraces depth).reads _)
  have hfound : ∀ found ∈ ((Task.element depth c.offset).read c.advance).elements,
      found ∈ elements := by
    intro found hmem
    rw [elements_ofCode hread]
    refine hcomes.elements.subset ?_
    rw [hcode.read_eq]
    exact List.mem_append_left _ hmem
  have hcut := fun hne => element.exists_isCutOff hne depth h
  refine ⟨⟨fun hwritten => Classical.byContradiction fun hne => ?_, fun hnil => hfound _ ?_⟩,
    fun hne => ?_⟩
  · obtain ⟨found, hmem, hfoundCut⟩ := hcut hne
    have hstarts : (elements.map (·.span.start)).Nodup :=
      List.pairwise_map.2 ((tagStructure_ofCode hread).inOrder.imp Nat.ne_of_lt)
    have hsame := List.inj_on_of_nodup_map hstarts (hfound found hmem) hwritten hfoundCut.start_eq
    have hlt := hsame ▸ hfoundCut.attrsEnd_lt
    simp only [TypedElement.written, TagName.placed, TypedElement.insideChars,
      utf8Length_append] at hlt
    omega
  · have hopen : c.advance.rest = element.untyped.tail ++ rest :=
      element.tail_eq_untyped hnil ▸ Cursor.rest_past ['<'] h
    have helement : Reads (.element depth c.offset) c.advance _ :=
      reads_element element.untyped depth (Cursor.offset_past ['<'] h) hopen
    rw [helement.read_eq]
    exact element.written_mem_untyped hnil depth c.offset
  · obtain ⟨found, hmem, hfoundCut⟩ := hcut hne
    exact ⟨found, hfound _ hmem, hfoundCut, reference_ne_ok_of_bare hfoundCut.bare⟩

/-- An element with one type argument and one attribute, which closes itself. -/
def genericElement : TypedElement where
  name := ⟨'A', rfl, ⟨[], nofun⟩⟩
  arguments := [.mk ⟨[], nofun⟩ ⟨['T'], List.all_eq_true.1 rfl⟩ (by decide) []]
  attributes := [.plain
    (.quoted ⟨⟨['b'], List.all_eq_true.1 rfl⟩, by decide⟩ .double ⟨['c'], List.all_eq_true.1 rfl⟩)
    ⟨by decide, by decide⟩]
  children? := none

def genericSource : String :=
  "x = <A<T> b=\"c\"/>;\n"

theorem toList_genericSource :
    genericSource.toList = "x = ".toList ++ '<' :: (genericElement.tail ++ ";\n".toList) := by
  decide +kernel

theorem ofCode_genericSource : ∃ elements, Element.ofCode genericSource = .ok elements ∧
    genericElement.written 0 4 ∉ elements := by
  have hcomputed : (Element.ofCode genericSource).toOption.any
      (fun elements => genericElement.written 0 4 ∉ elements) = true := by
    decide +kernel
  cases hread : Element.ofCode genericSource with
  | error severed =>
      rw [hread] at hcomputed
      cases hcomputed
  | ok elements =>
      rw [hread] at hcomputed
      exact ⟨elements, rfl, of_decide_eq_true hcomputed⟩

/-- The element stands for an operand and has type arguments, so it is cut off. -/
theorem cut_off_of_generic : ∃ elements, Element.ofCode genericSource = .ok elements ∧
    ∃ found ∈ elements, genericElement.IsCutOff 4 found ∧
      ∀ keyword reference, found.reference keyword ≠ .ok reference := by
  obtain ⟨elements, hread, -⟩ := ofCode_genericSource
  have hcomes : Comes (.code false 0 0) (.start genericSource.toList) false (.code false 0 0)
      ((Cursor.start genericSource.toList).past "x = ".toList) :=
    .on (.pastPlain rfl (by decide)) (.on (.pastPlain rfl (by decide))
      (.on (.pastPlain rfl (by decide)) (.on (.pastPlain rfl (by decide)) .here)))
  exact ⟨elements, hread, (written_mem_iff_no_arguments hread hcomes (by decide)
    (Cursor.rest_past _ toList_genericSource)).2 (by decide)⟩

/-- **Type arguments hide attributes.** An element with type arguments stands for an operand, and is not
found as it is written. -/
theorem generic_attributes_hidden :
    genericElement.arguments ≠ [] ∧
      genericSource.toList = "x = ".toList ++ '<' :: (genericElement.tail ++ ";\n".toList) ∧
      ∃ elements, Element.ofCode genericSource = .ok elements ∧
        genericElement.written 0 (utf8Length "x = ".toList) ∉ elements :=
  ⟨List.cons_ne_nil _ _, toList_genericSource, ofCode_genericSource⟩

end Texts

end ComponentTags
