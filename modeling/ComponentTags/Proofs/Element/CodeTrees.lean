import ComponentTags.Proofs.Element.CodeTexts

/-!
Trees of elements in code: how they are written, the elements that they hold, and that reading finds
just these.
-/

namespace ComponentTags

/-- An attribute name that does not make the tag name before it look like a type parameter. -/
structure AttributeName.SuitsCode (name : AttributeName) : Prop where
  noComma : name.chars.head? ≠ some ','
  noBound : name.chars ≠ "extends".toList

/-- A value in braces, with the `=` before it. -/
def bracesChars (inside : List Char) : List Char :=
  '=' :: '{' :: (inside ++ ['}'])

mutual

/-- An element in code, closed by its own tag or by a closing tag of its name. -/
inductive CodeElement where
  | empty (name : TagName) (attributes : List CodeAttribute)
  | full (name : TagName) (attributes : List CodeAttribute) (children : List CodeChild)

/-- An attribute in code: in braces it has a string or an element, or it spreads an object. -/
inductive CodeAttribute where
  | plain (attr : PlainAttribute) (suits : attr.name.SuitsCode)
  | text (name : AttributeName) (suits : name.SuitsCode) (quote : Quote)
      (value : Run (isStringChar quote))
  | tree (name : AttributeName) (suits : name.SuitsCode) (element : CodeElement)
  | spread (code : Run isPlainChar)

/-- What stands in an element; a hole is an element in braces. -/
inductive CodeChild where
  | text (text : Run isChildChar)
  | element (element : CodeElement)
  | hole (element : CodeElement)

end

/-! ### Texts -/

mutual

/-- How an element is written, behind its `<`. -/
def CodeElement.tail : CodeElement → List Char
  | .empty name attributes => name.chars ++ (attributesChars attributes ++ tagEnd true)
  | .full name attributes children =>
      name.chars ++ (attributesChars attributes ++ tagEnd false)
        ++ (childrenChars children ++ name.closingChars)

def CodeAttribute.chars : CodeAttribute → List Char
  | .plain attr _ => attr.chars
  | .text name _ quote value => name.chars ++ bracesChars (quote.around value.chars)
  | .tree name _ element => name.chars ++ bracesChars ('<' :: element.tail)
  | .spread code => '{' :: '.' :: '.' :: '.' :: (code.chars ++ ['}'])

def attributesChars : List CodeAttribute → List Char
  | [] => []
  | attr :: attributes => ' ' :: (attr.chars ++ attributesChars attributes)

def CodeChild.chars : CodeChild → List Char
  | .text text => text.chars
  | .element element => '<' :: element.tail
  | .hole element => '{' :: '<' :: (element.tail ++ ['}'])

def childrenChars : List CodeChild → List Char
  | [] => []
  | child :: children => child.chars ++ childrenChars children

end

/-! ### Elements -/

/-- The attribute with a value in braces that is written from an offset on. -/
def AttributeName.placedBraces (name : AttributeName) (inside : List Char) (start : Nat) : Attribute :=
  name.placed (some (.expression (String.ofList inside))) (bracesChars inside) start

/-- The attribute that is written from an offset on; a spread is none. -/
def CodeAttribute.placed? (start : Nat) : CodeAttribute → Option Attribute
  | .plain attr _ => some (attr.placed start)
  | .text name _ quote value => some (name.placedBraces (quote.around value.chars) start)
  | .tree name _ element => some (name.placedBraces ('<' :: element.tail) start)
  | .spread _ => none

def attributesPlaced (start : Nat) : List CodeAttribute → List Attribute
  | [] => []
  | attr :: attributes =>
      (attr.placed? (start + 1)).toList
        ++ attributesPlaced (start + utf8Length (' ' :: attr.chars)) attributes

mutual

/-- The elements of a tree that is written from an offset on, in the order of their opening tags. -/
def CodeElement.elements (depth start : Nat) : CodeElement → List Element
  | .empty name attributes =>
      let inside := start + 1 + utf8Length name.chars
      name.placed (attributesChars attributes) (attributesPlaced inside attributes) true depth start
          none
        :: attributesElements (depth + 1) inside attributes
  | .full name attributes children =>
      let inside := start + 1 + utf8Length name.chars
      let content :=
        start + 1 + utf8Length (name.chars ++ (attributesChars attributes ++ tagEnd false))
      name.placed (attributesChars attributes) (attributesPlaced inside attributes) false depth start
          (some (name.placedClosing (content + utf8Length (childrenChars children))))
        :: (attributesElements (depth + 1) inside attributes
          ++ childrenElements (depth + 1) content children)

def CodeAttribute.elements (depth start : Nat) : CodeAttribute → List Element
  | .plain _ _ => []
  | .text _ _ _ _ => []
  | .tree name _ element => element.elements depth (start + utf8Length (name.chars ++ ['=', '{']))
  | .spread _ => []

def attributesElements (depth start : Nat) : List CodeAttribute → List Element
  | [] => []
  | attr :: attributes =>
      attr.elements depth (start + 1)
        ++ attributesElements depth (start + utf8Length (' ' :: attr.chars)) attributes

def CodeChild.elements (depth start : Nat) : CodeChild → List Element
  | .text _ => []
  | .element element => element.elements depth start
  | .hole element => element.elements depth (start + 1)

def childrenElements (depth start : Nat) : List CodeChild → List Element
  | [] => []
  | child :: children =>
      child.elements depth start
        ++ childrenElements depth (start + utf8Length child.chars) children

end

/-! ### Readings -/

section Readings

variable {c : Cursor} {rest more : List Char} {inBraces : Bool} {openBraces depth start attrsEnd : Nat}

/-- How an attribute begins. -/
theorem CodeAttribute.exists_cons (attr : CodeAttribute) :
    ∃ ch chars, attr.chars = ch :: chars ∧ Ascii.isBlank ch = false ∧ ch ≠ '=' := by
  cases attr with
  | plain attr suits => exact attr.name.begins attr.valueChars
  | text name suits quote value => exact name.begins _
  | tree name suits element => exact name.begins _
  | spread code => exact ⟨'{', _, rfl, by decide, by decide⟩

theorem endsAttribute_attributes (attributes : List CodeAttribute) (selfClosing : Bool)
    (rest : List Char) :
    EndsAttribute (attributesChars attributes ++ (tagEnd selfClosing ++ rest)) := by
  cases attributes with
  | nil => exact EndsAttribute.of_tagEnd selfClosing rest
  | cons attr attributes =>
      obtain ⟨ch, chars, hattr, hblank, hequals⟩ := attr.exists_cons
      rw [attributesChars, hattr]
      exact .blank hblank hequals

/-! #### Elements are no type parameters -/

theorem parameterFollows_name {name : AttributeName} (suits : name.SuitsCode)
    (hrest : StopsAt Lexical.isAttributeNameChar rest) :
    parameterFollows (name.chars ++ rest) = false := by
  rw [parameterFollows, Bool.or_eq_false_iff, Bool.and_eq_false_imp]
  constructor
  · obtain ⟨ch, chars, hname⟩ := List.exists_cons_of_ne_nil name.nonempty
    have hcomma := suits.noComma
    rw [hname] at hcomma ⊢
    simpa using hcomma
  · intro hprefix
    obtain ⟨next, hnext⟩ := List.isPrefixOf_iff_prefix.1 hprefix
    rw [← hnext, Bool.eq_false_iff]
    intro hblank
    obtain ⟨ch, hch, hspace⟩ := (Option.any_eq_true _ _).1 hblank
    have hstops : StopsAt Lexical.isAttributeNameChar next := by
      intro other hother
      obtain rfl : ch = other := Option.some.inj (hch.symm.trans hother)
      exact Bool.eq_false_iff.2 fun hname =>
        absurd (isBlank_of_isAttributeNameChar hname) (by simp [hspace])
    have htaken := takeWhile_append_of_stopsAt
      (List.all_eq_true.1 rfl : ∀ ch ∈ "extends".toList, Lexical.isAttributeNameChar ch = true)
      hstops
    rw [hnext, takeWhile_append_of_stopsAt name.all hrest] at htaken
    exact suits.noBound htaken

theorem parameterFollows_attributes (attributes : List CodeAttribute) (selfClosing : Bool)
    (rest : List Char) :
    parameterFollows ((attributesChars attributes ++ (tagEnd selfClosing ++ rest)).dropWhile
      Ascii.isBlank) = false := by
  cases attributes with
  | nil => cases selfClosing <;> rfl
  | cons attr attributes =>
      have hrest := endsAttribute_attributes attributes selfClosing rest
      obtain ⟨ch, chars, hattr, hblank, -⟩ := attr.exists_cons
      have hdrop : (attributesChars (attr :: attributes) ++ (tagEnd selfClosing ++ rest)).dropWhile
          Ascii.isBlank =
            attr.chars ++ (attributesChars attributes ++ (tagEnd selfClosing ++ rest)) := by
        rw [attributesChars, List.cons_append, List.append_assoc, hattr]
        have hspace : ∀ ch ∈ [' '], Ascii.isBlank ch = true := List.all_eq_true.1 rfl
        exact dropWhile_append_of_stopsAt hspace (stopsAt_cons hblank)
      rw [hdrop]
      cases attr with
      | plain attr suits =>
          rw [CodeAttribute.chars, PlainAttribute.chars, List.append_assoc]
          refine parameterFollows_name suits ?_
          cases attr with
          | flag name => exact hrest.stopsAt_name
          | quoted name quote value => exact stopsAt_cons (by decide)
      | text name suits quote value =>
          rw [CodeAttribute.chars, List.append_assoc]
          exact parameterFollows_name suits (stopsAt_cons (by decide))
      | tree name suits element =>
          rw [CodeAttribute.chars, List.append_assoc]
          exact parameterFollows_name suits (stopsAt_cons (by decide))
      | spread code => rfl

theorem stopsAt_wordChar (h : EndsAttribute rest) : StopsAt Lexical.isWordChar rest := by
  cases h <;> exact stopsAt_cons (by decide)

theorem elementFollows_tail (element : CodeElement) (rest : List Char) :
    Lexical.elementFollows (element.tail ++ rest) = true := by
  cases element with
  | empty name | full name =>
      simp [CodeElement.tail, TagName.chars, Lexical.elementFollows, name.isStart]

theorem typeParametersFollow_tail (element : CodeElement) (rest : List Char) :
    Lexical.typeParametersFollow (element.tail ++ rest) = false := by
  cases element with
  | empty name attributes =>
      simp only [CodeElement.tail, List.append_assoc]
      exact typeParametersFollow_tagName name
        (stopsAt_wordChar (endsAttribute_attributes attributes true rest))
        (parameterFollows_attributes attributes true rest)
  | full name attributes children =>
      simp only [CodeElement.tail, List.append_assoc]
      exact typeParametersFollow_tagName name
        (stopsAt_wordChar (endsAttribute_attributes attributes false _))
        (parameterFollows_attributes attributes false _)

/-- Where an operand is expected, the `<` of an element opens it. -/
theorem CodeElement.opensElement (element : CodeElement) {before : List Char}
    (hbefore : Lexical.operandFollows before = true) (rest : List Char) :
    ComponentTags.opensElement before (element.tail ++ rest) = true := by
  rw [ComponentTags.opensElement, hbefore, elementFollows_tail, typeParametersFollow_tail]
  rfl

/-! #### Derivations -/

/-- What is read of an element in code. -/
def CodeElement.reading (element : CodeElement) (depth : Nat) (c : Cursor) : Reading Unit :=
  .having () (element.elements depth c.offset) (c.past ('<' :: element.tail))

/-- An element in braces, behind the opening one. -/
theorem Reads.bracedElement {element : CodeElement}
    (h : c.rest = '<' :: (element.tail ++ '}' :: rest))
    (hbefore : Lexical.operandFollows c.before = true)
    (helement : Reads (.element depth c.offset) c.advance (element.reading depth c)) :
    Reads (.code true 0 depth) c
      (.having () (element.elements depth c.offset) (c.past ('<' :: (element.tail ++ ['}'])))) := by
  have hafter : (c.past ('<' :: element.tail)).rest = '}' :: rest :=
    Cursor.rest_past ('<' :: element.tail) h
  have hread : Reads (.code true 0 depth) c _ :=
    .codeElement h (element.opensElement hbefore _) helement (.codeLeave hafter)
  have hnext : (c.past ('<' :: element.tail)).advance = c.past ('<' :: (element.tail ++ ['}'])) := by
    rw [← List.cons_append, Cursor.past_append]
    rfl
  simp only [CodeElement.reading, Reading.having, Reading.andThen, Reading.found, List.append_nil,
    Bool.or_false, hnext] at hread
  exact hread

/-- What is read of a tag's attributes and its end, from behind the name on. -/
def bodyReading (attributes : List CodeAttribute) (selfClosing : Bool) (depth : Nat) (c : Cursor) :
    Reading TagBody :=
  .having
    { attributes := attributesPlaced c.offset attributes
      attrsEnd := c.offset + utf8Length (attributesChars attributes)
      selfClosing }
    (attributesElements (depth + 1) c.offset attributes)
    (c.past (attributesChars attributes ++ tagEnd selfClosing))

/-- An opening tag is read as what it is written as. -/
theorem Reads.codeOpening {name : TagName} {attributes : List CodeAttribute} {selfClosing : Bool}
    (hstart : c.offset = start + 1)
    (h : c.rest = name.chars ++ (attributesChars attributes ++ (tagEnd selfClosing ++ rest)))
    (hbody : Reads (.tagBody .code depth (c.past name.chars).offset) (c.past name.chars)
      (bodyReading attributes selfClosing depth (c.past name.chars))) :
    Reads (.openingTag .code depth start) c
      (.having
        (name.placed (attributesChars attributes)
          (attributesPlaced (start + 1 + utf8Length name.chars) attributes) selfClosing depth start
          none)
        (attributesElements (depth + 1) (start + 1 + utf8Length name.chars) attributes)
        (c.past (name.chars ++ (attributesChars attributes ++ tagEnd selfClosing)))) := by
  have hoffset : (c.past name.chars).offset = start + 1 + utf8Length name.chars := by
    rw [Cursor.offset_past _ h, hstart]
  refine .opening hstart h (endsAttribute_attributes _ _ _).stopsAt_tagName ?_
  have hend : start + 1 + utf8Length (name.chars ++ attributesChars attributes) =
      (c.past name.chars).offset + utf8Length (attributesChars attributes) := by
    rw [hoffset, utf8Length_append, Nat.add_assoc (start + 1)]
  rw [TagName.body, hend, ← hoffset]
  exact hbody

theorem past_bracesChars (c : Cursor) (inside : List Char) :
    c.past (bracesChars inside) = ((c.past ['=', '{']).past inside).advance := by
  rw [bracesChars, Cursor.past_cons, Cursor.past_cons, Cursor.past_append]
  rfl

/-- A value in braces is all that stands between them. -/
theorem Reads.valueInBraces {inside : List Char} {elements : List Element}
    (h : c.rest = bracesChars inside ++ rest)
    (hcode : Reads (.code true 0 (depth + 1)) (c.past ['=', '{'])
      (.having () elements (c.past (bracesChars inside)))) :
    Reads (.attributeValue .code depth) c
      (.having (some (.expression (String.ofList inside))) elements
        (c.past (bracesChars inside))) := by
  have hopen : c.rest = '=' :: '{' :: (inside ++ '}' :: rest) := by simp [h, bracesChars]
  obtain ⟨hequals, hhere⟩ := skip_equals hopen (by decide)
  have hbrace : (c.past ['=']).rest = '{' :: (inside ++ '}' :: rest) :=
    Cursor.rest_past ['='] hopen
  have hread := Reads.valueExpression hequals hhere hbrace hcode
  have hinside : (c.past ['=', '{']).rest = inside ++ ['}'] ++ rest :=
    Cursor.rest_past ['=', '{'] h
  have htext : (c.past ['=', '{']).textTo (c.past (bracesChars inside)) = inside ++ ['}'] :=
    Cursor.textTo_past _ hinside
  have hascii : Ascii.isAscii '}' = true := by decide
  change Reads _ c (expressionValue (c.past ['=', '{']) _) at hread
  simpa [expressionValue, Reading.having, htext, hascii] using hread

/-- What is read of an attribute with a value in braces. -/
theorem Reads.placedBraces {name : AttributeName} {inside : List Char} {elements : List Element}
    {body : Reading TagBody} (h : c.rest = ' ' :: (name.chars ++ bracesChars inside ++ rest))
    (hcode : Reads (.code true 0 (depth + 1)) ((c.past (' ' :: name.chars)).past ['=', '{'])
      (.having () elements ((c.past (' ' :: name.chars)).past (bracesChars inside))))
    (hbody : Reads (.tagBody .code depth (c.past (' ' :: (name.chars ++ bracesChars inside))).offset)
      (c.past (' ' :: (name.chars ++ bracesChars inside))) body) :
    Reads (.tagBody .code depth attrsEnd) c
      { body with
        value := body.value.cons (name.placedBraces inside (c.offset + 1))
        elements := elements ++ body.elements } := by
  have hname : c.rest = ' ' :: (name.chars ++ (bracesChars inside ++ rest)) := by
    rw [h, List.append_assoc]
  exact .placed hname (stopsAt_cons (by decide))
    (.valueInBraces (Cursor.rest_past (' ' :: name.chars) hname) hcode) hbody

theorem Reads.spread {spread : Run isPlainChar} {body : Reading TagBody}
    (h : c.rest = ' ' :: ((CodeAttribute.spread spread).chars ++ rest))
    (hbody : Reads (.tagBody .code depth (c.past (' ' :: (CodeAttribute.spread spread).chars)).offset)
      (c.past (' ' :: (CodeAttribute.spread spread).chars)) body) :
    Reads (.tagBody .code depth attrsEnd) c body := by
  let dots := '.' :: '.' :: '.' :: spread.chars
  have hopen : c.rest = [' '] ++ ('{' :: (dots ++ '}' :: rest)) := by
    simp [h, dots, CodeAttribute.chars]
  have hhere : c.past [' '] = c.skipWhile Ascii.isBlank :=
    (Cursor.skipWhile_eq_past _ hopen (List.all_eq_true.1 rfl) (stopsAt_cons (by decide))).symm
  have hbrace := Cursor.rest_past _ hopen
  have hdot : ∀ ch ∈ ['.', '.', '.'], isPlainChar ch = true := List.all_eq_true.1 rfl
  have hdots : ∀ ch ∈ dots, isPlainChar ch = true := List.forall_mem_append.2 ⟨hdot, spread.all⟩
  have hinside : (c.past [' ']).advance.rest = dots ++ '}' :: rest :=
    Cursor.rest_past ['{'] hbrace
  have hcode : Reads (.code true 0 (depth + 1)) (c.past [' ']).advance _ :=
    .pastPlain hdots hinside (.codeLeave (Cursor.rest_past _ hinside))
  have hnext : ((c.past [' ']).advance.past dots).advance =
      c.past (' ' :: (CodeAttribute.spread spread).chars) := by
    change ((c.past [' ', '{']).past dots).past ['}'] = _
    rw [← Cursor.past_append, ← Cursor.past_append]
    rfl
  rw [hnext] at hcode
  have hread : Reads (.tagBody .code depth attrsEnd) c _ := .bodySpread hhere hbrace hcode hbody
  rwa [Reading.found_andThen] at hread

theorem Reads.pastChildText {text : List Char} {children : Reading (Option ClosingTag)}
    (htext : ∀ ch ∈ text, isChildChar ch = true) (h : c.rest = text ++ rest)
    (hchildren : Reads (.children depth) (c.past text) children) :
    Reads (.children depth) c children := by
  induction text generalizing c with
  | nil => exact hchildren
  | cons ch text ih =>
      have hch : ch ∉ ['{', '<'] := by
        have hplain := htext ch List.mem_cons_self
        simp only [isChildChar, Bool.and_eq_true, bne_iff_ne] at hplain
        simp [hplain.1, hplain.2]
      exact .childrenPlain h hch
        (ih (fun other hother => htext other (List.mem_cons_of_mem _ hother))
          (Cursor.rest_past [ch] h) hchildren)

theorem Reading.having_andThen {α : Type} (elements : List Element) (next : Cursor)
    (reading : Reading α) :
    (Reading.having () elements next).andThen reading =
      { reading with elements := elements ++ reading.elements } := by
  cases reading
  rfl

-- By induction on the tree. Attributes and children are read with what follows still open: whatever
-- derivation there is for the rest, theirs goes before it.
mutual

/-- **An element is read as what it is written as.** -/
theorem reads_element (element : CodeElement) (depth : Nat) {start : Nat} {c : Cursor}
    {rest : List Char} (hstart : c.offset = start + 1) (h : c.rest = element.tail ++ rest) :
    Reads (.element depth start) c
      (.having () (element.elements depth start) (c.past element.tail)) := by
  match element with
  | .empty name attributes =>
      have hname : c.rest =
          name.chars ++ (attributesChars attributes ++ (tagEnd true ++ rest)) := by
        rw [h, CodeElement.tail, List.append_assoc, List.append_assoc]
      have hbody := reads_attributes attributes true depth (Cursor.rest_past _ hname)
      rw [CodeElement.elements, CodeElement.tail]
      exact .elementEmpty (.codeOpening hstart hname hbody) rfl
  | .full name attributes children =>
      have hname : c.rest = name.chars ++ (attributesChars attributes ++
          (tagEnd false ++ (childrenChars children ++ (name.closingChars ++ rest)))) := by
        rw [h, CodeElement.tail]
        simp only [List.append_assoc]
      have hbody := reads_attributes attributes false depth (Cursor.rest_past _ hname)
      have hcontent : c.rest = name.chars ++ (attributesChars attributes ++ tagEnd false) ++
          (childrenChars children ++ (name.closingChars ++ rest)) := by
        rw [hname]
        simp only [List.append_assoc]
      have hchildren := reads_children children depth (Cursor.rest_past _ hcontent)
      have hread := Reads.elementFull (.codeOpening hstart hname hbody) rfl hchildren
      rw [CodeElement.elements, CodeElement.tail, Cursor.past_append]
      rw [Cursor.offset_past _ hcontent, hstart] at hread
      exact hread

theorem reads_attributes (attributes : List CodeAttribute) (selfClosing : Bool) (depth : Nat)
    {c : Cursor} {rest : List Char}
    (h : c.rest = attributesChars attributes ++ (tagEnd selfClosing ++ rest)) :
    Reads (.tagBody .code depth c.offset) c (bodyReading attributes selfClosing depth c) := by
  match attributes with
  | [] => exact .ending h
  | attr :: attributes =>
      have hattr : c.rest = ' ' :: (attr.chars ++
          (attributesChars attributes ++ (tagEnd selfClosing ++ rest))) := by
        rw [h, attributesChars, List.cons_append, List.append_assoc]
      have hpast : (c.past (' ' :: attr.chars)).rest =
          attributesChars attributes ++ (tagEnd selfClosing ++ rest) :=
        Cursor.rest_past (' ' :: attr.chars) hattr
      have hoffset : (c.past (' ' :: attr.chars)).offset =
          c.offset + utf8Length (' ' :: attr.chars) :=
        Cursor.offset_past (' ' :: attr.chars) hattr
      have hread := reads_attribute attr depth c.offset hattr
        (endsAttribute_attributes attributes selfClosing rest)
        (reads_attributes attributes selfClosing depth hpast)
      have hsame : attributesChars (attr :: attributes) =
          ' ' :: attr.chars ++ attributesChars attributes := by
        rw [attributesChars]
        rfl
      rw [bodyReading, hsame, utf8Length_append, ← Nat.add_assoc, List.append_assoc,
        Cursor.past_append, attributesPlaced, attributesElements, ← hoffset]
      exact hread

theorem reads_attribute (attr : CodeAttribute) (depth attrsEnd : Nat) {c : Cursor}
    {rest : List Char} {body : Reading TagBody} (h : c.rest = ' ' :: (attr.chars ++ rest))
    (hrest : EndsAttribute rest)
    (hbody : Reads (.tagBody .code depth (c.past (' ' :: attr.chars)).offset)
      (c.past (' ' :: attr.chars)) body) :
    Reads (.tagBody .code depth attrsEnd) c
      { body with
        value := { body.value with
          attributes := (attr.placed? (c.offset + 1)).toList ++ body.value.attributes }
        elements := attr.elements (depth + 1) (c.offset + 1) ++ body.elements } := by
  match attr with
  | .plain attr suits => exact .plain h hrest hbody
  | .text name suits quote value =>
      have hinside : ((c.past (' ' :: name.chars)).past ['=', '{']).rest =
          quote.around value.chars ++ '}' :: rest := by
        rw [← Cursor.past_append]
        exact Cursor.rest_past _ (by simp [h, CodeAttribute.chars, bracesChars])
      refine .placedBraces h ?_ hbody
      rw [past_bracesChars]
      exact .pastString hinside (.codeLeave (Cursor.rest_past _ hinside))
  | .tree name suits element =>
      have hopen : (c.past (' ' :: name.chars)).rest =
          ['=', '{'] ++ ('<' :: (element.tail ++ '}' :: rest)) :=
        Cursor.rest_past _ (by simp [h, CodeAttribute.chars, bracesChars])
      have hbrace := Cursor.rest_past _ hopen
      have hbefore : Lexical.operandFollows
          ((c.past (' ' :: name.chars)).past ['=', '{']).before = true := by
        rw [Cursor.before_past _ hopen]
        rfl
      have hoffset : ((c.past (' ' :: name.chars)).past ['=', '{']).offset =
          c.offset + 1 + utf8Length (name.chars ++ ['=', '{']) := by
        have hall : c.rest = ' ' :: name.chars ++ ['=', '{'] ++ ('<' :: (element.tail ++ '}' :: rest)) := by
          simp [h, CodeAttribute.chars, bracesChars]
        rw [← Cursor.past_append, Cursor.offset_past _ hall, List.cons_append, utf8Length,
          ← Nat.add_assoc]
        rfl
      have helement := reads_element element (depth + 1)
        (Cursor.offset_past ['<'] hbrace) (Cursor.rest_past ['<'] hbrace)
      have hcode := Reads.bracedElement hbrace hbefore helement
      have hnext : ((c.past (' ' :: name.chars)).past ['=', '{']).past
          ('<' :: (element.tail ++ ['}'])) =
            (c.past (' ' :: name.chars)).past (bracesChars ('<' :: element.tail)) :=
        (Cursor.past_append _ ['=', '{'] _).symm
      rw [hoffset, hnext] at hcode
      exact .placedBraces h hcode hbody
  | .spread spread => exact .spread h hbody

theorem reads_children (children : List CodeChild) (depth : Nat) {name : TagName} {c : Cursor}
    {rest : List Char} (h : c.rest = childrenChars children ++ (name.closingChars ++ rest)) :
    Reads (.children depth) c
      (.having (some (name.placedClosing (c.offset + utf8Length (childrenChars children))))
        (childrenElements (depth + 1) c.offset children)
        (c.past (childrenChars children ++ name.closingChars))) := by
  match children with
  | [] =>
      have hread : Reads (.children depth) c _ := .childrenClose h
      rw [closingTag_eq h] at hread
      exact hread
  | child :: children =>
      have hchild : c.rest = child.chars ++
          (childrenChars children ++ (name.closingChars ++ rest)) := by
        rw [h, childrenChars, List.append_assoc]
      have hread := reads_child child depth hchild
        (reads_children children depth (Cursor.rest_past _ hchild))
      rw [Cursor.offset_past _ hchild] at hread
      rw [childrenChars, utf8Length_append, ← Nat.add_assoc, List.append_assoc, Cursor.past_append,
        childrenElements]
      exact hread

theorem reads_child (child : CodeChild) (depth : Nat) {c : Cursor} {rest : List Char}
    {children : Reading (Option ClosingTag)} (h : c.rest = child.chars ++ rest)
    (hchildren : Reads (.children depth) (c.past child.chars) children) :
    Reads (.children depth) c
      { children with elements := child.elements (depth + 1) c.offset ++ children.elements } := by
  match child with
  | .text text => exact .pastChildText text.all h hchildren
  | .element element =>
      have hopen : c.rest = '<' :: (element.tail ++ rest) := h
      have hread := Reads.childrenElement hopen (elementFollows_tail element rest)
        (reads_element element (depth + 1) (Cursor.offset_past ['<'] hopen)
          (Cursor.rest_past ['<'] hopen)) hchildren
      rwa [Reading.having_andThen] at hread
  | .hole element =>
      have hopen : c.rest = '{' :: '<' :: (element.tail ++ '}' :: rest) := by
        simp [h, CodeChild.chars]
      have hinside : c.advance.rest = '<' :: (element.tail ++ '}' :: rest) :=
        Cursor.rest_past ['{'] hopen
      have hbrace : c.advance.before = '{' :: c.before := Cursor.before_past ['{'] hopen
      have hbefore : Lexical.operandFollows c.advance.before = true := by
        rw [hbrace]
        rfl
      have hoffset : c.advance.offset = c.offset + 1 := Cursor.offset_past ['{'] hopen
      have helement := reads_element element (depth + 1)
        (Cursor.offset_past ['<'] hinside) (Cursor.rest_past ['<'] hinside)
      have hread := Reads.childrenHole hopen (.bracedElement hinside hbefore helement) hchildren
      rwa [Reading.having_andThen, hoffset] at hread

end

end Readings

end ComponentTags
