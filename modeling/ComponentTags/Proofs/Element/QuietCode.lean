import ComponentTags.Proofs.Text.Quotes
import ComponentTags.Proofs.Element.CodeTrees
import ComponentTags.Proofs.Element.TagStructure

/-!
Quiet code. Some code is read past wherever it stands: nothing in it is an element, and nothing that it
opens is left open. What is put together from quiet parts is quiet, and so is a quoted text, whatever
the text is.
-/

namespace ComponentTags

/-- Code that is read past wherever it stands. -/
def IsQuiet (text : List Char) : Prop :=
  ∀ ⦃c : Cursor⦄ ⦃rest : List Char⦄ ⦃inBraces : Bool⦄ ⦃openBraces depth : Nat⦄ ⦃code : Reading Unit⦄,
    c.rest = text ++ rest → Reads (.code inBraces openBraces depth) (c.past text) code →
      Reads (.code inBraces openBraces depth) c code

section Quiet

variable {c : Cursor} {text more rest : List Char} {ch : Char}

theorem isQuiet_nil : IsQuiet [] :=
  fun _ _ _ _ _ _ _ hcode => hcode

theorem isQuiet_plain (h : ∀ ch ∈ text, isPlainChar ch = true) : IsQuiet text :=
  fun _ _ _ _ _ _ hrest hcode => .pastPlain h hrest hcode

theorem IsQuiet.append (h : IsQuiet text) (hmore : IsQuiet more) : IsQuiet (text ++ more) := by
  intro c rest inBraces openBraces depth code hrest hcode
  rw [List.append_assoc] at hrest
  rw [Cursor.past_append] at hcode
  exact h hrest (hmore (Cursor.rest_past _ hrest) hcode)

/-- Braces around quiet code are closed where they are, also in other braces. -/
theorem IsQuiet.inBraces (h : IsQuiet text) : IsQuiet ('{' :: (text ++ ['}'])) := by
  intro c rest inBraces openBraces depth code hrest hcode
  have hopen : c.rest = '{' :: (text ++ '}' :: rest) := by simpa using hrest
  have hinside : (c.past ['{']).rest = text ++ '}' :: rest := Cursor.rest_past ['{'] hopen
  have hclose : ((c.past ['{']).past text).rest = '}' :: rest := Cursor.rest_past text hinside
  have hend : ((c.past ['{']).past text).advance = c.past ('{' :: (text ++ ['}'])) := by
    rw [Cursor.past_cons c '{' (text ++ ['}']), Cursor.past_append]
    rfl
  rw [← hend] at hcode
  exact .codeOpen hopen (h hinside (.codeClose hclose (by simp) hcode))

/-! ### Quoted texts -/

theorem stringLength_cons_of_ne {quote : Char} (hslash : ch ≠ '\\') (hquote : ch ≠ quote)
    (hbreak : ch ≠ '\n') (rest : List Char) :
    Lexical.stringLength quote (ch :: rest) = Lexical.stringLength quote rest + 1 := by
  rw [Lexical.stringLength, if_neg hbreak, if_neg hquote]
  · exact fun heq => absurd heq hslash
  · exact fun _ _ heq => absurd heq hslash

theorem stringLength_hexDigits {digits : List Char}
    (h : ∀ digit ∈ digits, digit ∈ Quoted.hexDigits) (rest : List Char) :
    Lexical.stringLength '"' (digits ++ rest) = Lexical.stringLength '"' rest + digits.length := by
  have hcheck : Quoted.hexDigits.all
      (fun digit => digit ≠ '\\' ∧ digit ≠ '"' ∧ digit ≠ '\n') = true := by decide +kernel
  have hall : ∀ digit ∈ Quoted.hexDigits, digit ≠ '\\' ∧ digit ≠ '"' ∧ digit ≠ '\n' :=
    fun digit hdigit => of_decide_eq_true (List.all_eq_true.1 hcheck digit hdigit)
  induction digits with
  | nil => rfl
  | cons digit digits ih =>
      obtain ⟨hdigit, hdigits⟩ := List.forall_mem_cons.1 h
      obtain ⟨hslash, hquote, hbreak⟩ := hall digit hdigit
      rw [List.cons_append, stringLength_cons_of_ne hslash hquote hbreak, ih hdigits,
        List.length_cons, Nat.add_assoc]

/-- No character of a text ends the string that the text is quoted as. -/
theorem stringLength_encodeChar (ch : Char) (rest : List Char) :
    Lexical.stringLength '"' (Quoted.encodeChar ch ++ rest) =
      Lexical.stringLength '"' rest + (Quoted.encodeChar ch).length := by
  have hencodes := Quoted.encodes_encodeChar ch
  generalize Quoted.encodeChar ch = written at hencodes
  cases hencodes with
  | itself hquote hslash hcontrol =>
      refine stringLength_cons_of_ne hslash hquote ?_ rest
      rintro rfl
      exact hcontrol (by decide)
  | escape hch hletter hdigits =>
      simp only [List.cons_append, List.length_cons]
      rw [Lexical.stringLength, stringLength_hexDigits hdigits]
      rfl

theorem stringLength_encode (text rest : List Char) :
    Lexical.stringLength '"' (text.flatMap Quoted.encodeChar ++ '"' :: rest) =
      (text.flatMap Quoted.encodeChar).length + 1 := by
  induction text with
  | nil => simp [Lexical.stringLength]
  | cons ch text ih =>
      rw [List.flatMap_cons, List.append_assoc, stringLength_encodeChar, ih, List.length_append]
      omega

/-- **A quoted text is quiet, whatever the text is.** -/
theorem isQuiet_encode (text : String) : IsQuiet (Quoted.encode text).toList := by
  intro c rest inBraces openBraces depth code hrest hcode
  rw [Quoted.encode, String.toList_ofList, Quoted.encodeChars, List.cons_append] at hrest hcode
  have hlength := stringLength_encode text.toList rest
  refine .pastOpaque hrest ?_ (by decide) hcode
  rw [Lexical.plainLength, List.append_assoc, List.singleton_append, hlength, List.length_append,
    List.length_singleton]

/-! ### Tags -/

theorem isNameChar_of_isBlank (h : Ascii.isBlank ch = true) : Lexical.isNameChar ch = false := by
  simp only [Ascii.isBlank, Bool.or_eq_true, beq_iff_eq] at h
  rcases h with (((rfl | rfl) | rfl) | rfl) | rfl <;> decide

/-- Where an operand is expected, the `<` of a tag opens an element. -/
theorem opensElement_tag (name : TagName) (attributes : List CodeAttribute) (selfClosing : Bool)
    {before : List Char} (hbefore : Lexical.operandFollows before = true) (rest : List Char) :
    opensElement before
      (name.chars ++ (attributesChars attributes ++ (tagEnd selfClosing ++ rest))) = true := by
  have hparameters : Lexical.typeParametersFollow
      (name.chars ++ (attributesChars attributes ++ (tagEnd selfClosing ++ rest))) = false :=
    typeParametersFollow_tagName name
      (stopsAt_wordChar (endsAttribute_attributes attributes selfClosing rest))
      (parameterFollows_attributes attributes selfClosing rest)
  rw [opensElement, hbefore, hparameters]
  simp [TagName.chars, Lexical.elementFollows, name.isStart]

theorem IsQuiet.valueInBraces {depth : Nat} (htext : IsQuiet text)
    (h : c.rest = bracesChars text ++ rest) :
    Reads (.attributeValue .code depth) c
      (.having (some (.expression (String.ofList text))) [] (c.past (bracesChars text))) := by
  have hopen : c.rest = ['=', '{'] ++ (text ++ '}' :: rest) := by simp [h, bracesChars]
  have hinside := Cursor.rest_past _ hopen
  refine .valueInBraces h ?_
  rw [past_bracesChars]
  exact htext hinside (.codeLeave (Cursor.rest_past _ hinside))

/-- What stands behind the name of a tag that closes itself: one attribute, with blanks around it. -/
def singleAttributeChars (lead : List Char) (attr : AttributeName) (inside trail : List Char) :
    List Char :=
  lead ++ (attr.chars ++ (bracesChars inside ++ (trail ++ tagEnd true)))

/-- The element of a tag with one attribute of quiet code. -/
theorem IsQuiet.reads_element {name : TagName} {attr : AttributeName} {lead trail : List Char}
    (depth start : Nat) (htext : IsQuiet text) (hne : lead ≠ [])
    (hlead : ∀ ch ∈ lead, Ascii.isBlank ch = true) (htrail : ∀ ch ∈ trail, Ascii.isBlank ch = true)
    (h : c.rest = name.chars ++ (singleAttributeChars lead attr text trail ++ rest)) :
    ∃ element : Element, element.name = String.ofList name.chars ∧ element.selfClosing = true ∧
      element.depth = depth ∧ element.close = none ∧
      element.span = ⟨start, (c.past (name.chars ++ singleAttributeChars lead attr text trail)).offset⟩ ∧
      Reads (.element depth start) c (.having () [element]
        (c.past (name.chars ++ singleAttributeChars lead attr text trail))) := by
  have hname : (c.past name.chars).rest =
      lead ++ (attr.chars ++ (bracesChars text ++ (trail ++ (tagEnd true ++ rest)))) := by
    refine Cursor.rest_past _ ?_
    rw [h, singleAttributeChars]
    simp only [List.append_assoc]
  have htaken : c.rest.takeWhile Lexical.isNameChar = name.chars := by
    obtain ⟨blank, blanks, rfl⟩ := List.exists_cons_of_ne_nil hne
    rw [h]
    exact takeWhile_append_of_stopsAt name.isNameChar
      (stopsAt_cons (isNameChar_of_isBlank (hlead blank List.mem_cons_self)))
  have hafter : c.past name.chars = c.drop (c.rest.takeWhile Lexical.isNameChar).length := by
    rw [htaken, Cursor.past]
  let valueStart := ((c.past name.chars).past lead).past attr.chars
  let valueEnd := valueStart.past (bracesChars text)
  have hvalue : valueStart.rest = bracesChars text ++ (trail ++ (tagEnd true ++ rest)) :=
    Cursor.rest_past _ (Cursor.rest_past _ hname)
  have hend : valueEnd.rest = trail ++ (tagEnd true ++ rest) := Cursor.rest_past _ hvalue
  have hbody : Reads (.tagBody .code depth (c.past name.chars).offset) (c.past name.chars) _ :=
    .namedAfter hlead hname (stopsAt_cons (by decide)) (htext.valueInBraces hvalue)
      (.endingAfter htrail hend)
  have hopening : Reads (.openingTag .code depth start) c _ := .openingTag hafter hbody
  have hread : Reads (.element depth start) c _ := .elementEmpty hopening rfl
  have hnext : valueEnd.past (trail ++ tagEnd true) =
      c.past (name.chars ++ singleAttributeChars lead attr text trail) := by
    simp only [singleAttributeChars, Cursor.past_append, valueEnd, valueStart]
  let written : Attribute :=
    { name := String.ofList attr.chars
      value := some (.expression (String.ofList text))
      span := ⟨((c.past name.chars).past lead).offset, valueEnd.offset⟩ }
  let tag := TagBody.cons written (.last valueEnd.offset true)
  refine ⟨openedElement depth start c tag (valueEnd.past (trail ++ tagEnd true)),
    congrArg String.ofList htaken, rfl, rfl, rfl, ?_, ?_⟩
  · rw [← hnext]
    rfl
  · rw [← hnext]
    exact hread

/-- How one attribute with a value in braces is written, with the blank before it. -/
def bracedChars (attr : AttributeName) (value : List Char) : List Char :=
  ' ' :: (attr.chars ++ bracesChars value)

theorem IsQuiet.reads_opening {name : TagName} {attr : AttributeName} {selfClosing : Bool}
    {depth start : Nat} (htext : IsQuiet text) (hstart : c.offset = start + 1)
    (h : c.rest = name.chars ++ (bracedChars attr text ++ (tagEnd selfClosing ++ rest))) :
    Reads (.openingTag .code depth start) c
      (.having
        (name.placed (bracedChars attr text)
          [attr.placedBraces text (start + 1 + utf8Length name.chars + 1)] selfClosing depth start none)
        [] (c.past (name.chars ++ (bracedChars attr text ++ tagEnd selfClosing)))) := by
  have hbehind := Cursor.rest_past _ h
  have hoffset : (c.past name.chars).offset = start + 1 + utf8Length name.chars := by
    rw [Cursor.offset_past _ h, hstart]
  have hattr : (c.past name.chars).rest =
      ' ' :: (attr.chars ++ (bracesChars text ++ (tagEnd selfClosing ++ rest))) := by
    rw [hbehind, bracedChars, List.cons_append, List.append_assoc]
  have hend : ((c.past name.chars).past (bracedChars attr text)).offset =
      start + 1 + utf8Length (name.chars ++ bracedChars attr text) := by
    rw [Cursor.offset_past _ hbehind, hoffset, utf8Length_append, Nat.add_assoc (start + 1)]
  refine .opening hstart h (stopsAt_cons (by decide)) ?_
  have hbody : Reads (.tagBody .code depth (c.past name.chars).offset) (c.past name.chars) _ :=
    .placed hattr (stopsAt_cons (by decide))
      (htext.valueInBraces (Cursor.rest_past (' ' :: attr.chars) hattr))
      (.ending (Cursor.rest_past _ hbehind))
  rw [TagName.body, ← hend, ← hoffset, Cursor.past_append]
  exact hbody

/-- Quiet code in braces is a hole that ends where it is closed. -/
theorem IsQuiet.reads_hole {depth : Nat} (htext : IsQuiet text)
    (h : c.rest = '{' :: (text ++ ['}']) ++ rest) :
    Reads (.code true 0 depth) c.advance (.found () (c.past ('{' :: (text ++ ['}'])))) := by
  have hopen : c.rest = ['{'] ++ (text ++ '}' :: rest) := by simp [h]
  have hinside := Cursor.rest_past _ hopen
  have hclose := Cursor.rest_past text hinside
  have hnext : ((c.past ['{']).past text).advance = c.past ('{' :: (text ++ ['}'])) := by
    rw [Cursor.past_cons c '{' (text ++ ['}']), Cursor.past_append]
    rfl
  rw [← hnext]
  exact htext hinside (.codeLeave hclose)

/-- How an element is written, behind its `<`, that has one attribute in braces and one hole in it. -/
def holedTail (name : TagName) (attr : AttributeName) (value inside : List Char) : List Char :=
  name.chars ++ (bracedChars attr value ++ tagEnd false) ++
    ('{' :: (inside ++ ['}']) ++ name.closingChars)

/-- All that stands in a span is one hole, which is read from the front of the span to its end. -/
structure IsOneHole (source : List Char) (span : Span) (depth : Nat) (inside : List Char) : Prop where
  covers : Covers source span ('{' :: (inside ++ ['}']))
  read : ∃ c : Cursor, c.IsIn source ∧ c.offset = span.start ∧
    (readCode true 0 depth c.advance).val = .found () (c.past ('{' :: (inside ++ ['}']))) ∧
    (c.past ('{' :: (inside ++ ['}']))).offset = span.stop

/-- The element that is read of a tag with one attribute in braces, a hole and the closing tag. -/
theorem IsQuiet.reads_holed {source : List Char} {name : TagName} {attr : AttributeName}
    {value : List Char} (depth : Nat) (hvalue : IsQuiet value) (htext : IsQuiet text)
    (hin : c.IsIn source) (h : c.rest = '<' :: holedTail name attr value text ++ rest) :
    ∃ element closing, element.name = String.ofList name.chars ∧ element.depth = depth ∧
      element.close = some closing ∧ Covers source closing.span name.closingChars ∧
      IsOneHole source ⟨element.span.stop, closing.span.start⟩ (depth + 1) text ∧
      Reads (.element depth c.offset) c.advance
        (.having () [element] (c.past ('<' :: holedTail name attr value text))) := by
  let opening := name.chars ++ (bracedChars attr value ++ tagEnd false)
  have hopened : c.rest = '<' :: opening ++ ('{' :: (text ++ ['}']) ++ (name.closingChars ++ rest)) := by
    simp only [h, holedTail, opening, List.append_assoc, List.cons_append]
  have hname : c.advance.rest = name.chars ++ (bracedChars attr value ++ (tagEnd false ++
      ('{' :: (text ++ ['}']) ++ (name.closingChars ++ rest)))) := by
    refine Cursor.rest_past ['<'] ?_
    simp only [hopened, opening, List.append_assoc, List.cons_append, List.nil_append]
  have hstart : c.advance.offset = c.offset + 1 := Cursor.offset_past ['<'] h
  let behind := c.past ('<' :: opening)
  have hbehind : behind.rest = '{' :: (text ++ ['}']) ++ (name.closingChars ++ rest) :=
    Cursor.rest_past _ hopened
  have hclosing := Cursor.rest_past _ hbehind
  have hoffset := Cursor.offset_past _ hbehind
  have hchildren : Reads (.children depth) behind _ :=
    .childrenHole hbehind (htext.reads_hole hbehind) (.childrenClose hclosing)
  rw [Reading.found_andThen, Reading.next_found, closingTag_eq hclosing] at hchildren
  have hread := Reads.elementFull (hvalue.reads_opening hstart hname) rfl hchildren
  have hnext : (behind.past ('{' :: (text ++ ['}']))).past name.closingChars =
      c.past ('<' :: holedTail name attr value text) := by
    simp only [behind, ← Cursor.past_append, holedTail, opening, List.append_assoc, List.cons_append]
  have hstop : behind.offset = c.offset + 1 + utf8Length opening := by
    rw [Cursor.offset_past _ hopened, utf8Length, ← Nat.add_assoc]
    rfl
  have hhole : IsOneHole source ⟨behind.offset, (behind.past ('{' :: (text ++ ['}']))).offset⟩
      (depth + 1) text := by
    have hcode : Reads (.code true 0 (depth + 1)) behind.advance _ := htext.reads_hole hbehind
    refine ⟨?_, behind, hin.drop _, rfl, hcode.read_eq, rfl⟩
    rw [hoffset]
    exact (hin.drop _).covers hbehind
  rw [hstop] at hhole
  rw [← hnext]
  exact ⟨_, _, rfl, rfl, rfl, ((hin.drop _).drop _).covers hclosing, hhole, hread⟩

theorem opensElement_holed {name : TagName} {attr : AttributeName} (suits : attr.SuitsCode)
    {before : List Char} (hbefore : Lexical.operandFollows before = true)
    (value inside rest : List Char) :
    opensElement before (holedTail name attr value inside ++ rest) = true := by
  obtain ⟨ch, chars, hattr, hblank, -⟩ := attr.begins (bracesChars value ++ (tagEnd false ++
    ('{' :: (inside ++ ['}']) ++ (name.closingChars ++ rest))))
  have htail : holedTail name attr value inside ++ rest = name.chars ++ (' ' :: (attr.chars ++
      (bracesChars value ++ (tagEnd false ++
        ('{' :: (inside ++ ['}']) ++ (name.closingChars ++ rest)))))) := by
    rw [holedTail, bracedChars]
    simp only [List.append_assoc, List.cons_append]
  have hspace : ∀ ch ∈ [' '], Ascii.isBlank ch = true := List.all_eq_true.1 rfl
  have hparameters : Lexical.typeParametersFollow (name.chars ++ (' ' :: (attr.chars ++
      (bracesChars value ++ (tagEnd false ++
        ('{' :: (inside ++ ['}']) ++ (name.closingChars ++ rest))))))) = false := by
    refine typeParametersFollow_tagName name (stopsAt_cons (by decide)) ?_
    rw [← List.singleton_append, dropWhile_append_of_stopsAt hspace (hattr ▸ stopsAt_cons hblank)]
    exact parameterFollows_name suits (stopsAt_cons (by decide))
  rw [htail, opensElement, hbefore, hparameters]
  simp [TagName.chars, Lexical.elementFollows, name.isStart]

/-- The content and the closing tag of an element that has one other in it, with text around. -/
def onlyChildChars (name : TagName) (lead tail trail : List Char) : List Char :=
  lead ++ ('<' :: tail ++ (trail ++ name.closingChars))

/-- An element whose tag closes itself stands in another one, up to the closing tag of that one. -/
structure IsOnlyChild (source : List Char) (name childName : TagName) (depth first : Nat)
    (child : Element) (closing : ClosingTag) : Prop where
  named : child.name = String.ofList childName.chars
  empty : child.selfClosing = true ∧ child.close = none
  deeper : child.depth = depth + 1
  behind : first ≤ child.span.start
  before : child.span.stop ≤ closing.span.start
  closed : Covers source closing.span name.closingChars

theorem IsQuiet.reads_onlyChild {source : List Char} {name childName : TagName}
    {attr : AttributeName} {lead trail front back : List Char} (depth : Nat) (htext : IsQuiet text)
    (hne : front ≠ []) (hfront : ∀ ch ∈ front, Ascii.isBlank ch = true)
    (hback : ∀ ch ∈ back, Ascii.isBlank ch = true)
    (hlead : ∀ ch ∈ lead, isChildChar ch = true) (htrail : ∀ ch ∈ trail, isChildChar ch = true)
    (hin : c.IsIn source)
    (h : c.rest = onlyChildChars name lead
      (childName.chars ++ singleAttributeChars front attr text back) trail ++ rest) :
    ∃ child closing, IsOnlyChild source name childName depth c.offset child closing ∧
      Reads (.children depth) c (.having (some closing) [child]
        (c.past (onlyChildChars name lead
          (childName.chars ++ singleAttributeChars front attr text back) trail))) := by
  generalize htail : childName.chars ++ singleAttributeChars front attr text back = tail at h
  have hall : c.rest = lead ++ ('<' :: (tail ++ (trail ++ (name.closingChars ++ rest)))) := by
    rw [h, onlyChildChars]
    simp only [List.append_assoc, List.cons_append]
  have hopened := Cursor.rest_past _ hall
  have hinside : (c.past lead).advance.rest = tail ++ (trail ++ (name.closingChars ++ rest)) :=
    Cursor.rest_past ['<'] hopened
  have hbehind : ((c.past lead).past ('<' :: tail)).rest =
      trail ++ (name.closingChars ++ rest) := Cursor.rest_past ('<' :: tail) hopened
  have hclosing := Cursor.rest_past _ hbehind
  have hclosingIn : (((c.past lead).past ('<' :: tail)).past trail).IsIn source :=
    ((hin.drop _).drop _).drop _
  have hfollows : Lexical.elementFollows
      (tail ++ (trail ++ (name.closingChars ++ rest))) = true := by
    rw [← htail]
    simp [TagName.chars, Lexical.elementFollows, childName.isStart]
  have hchild : (c.past lead).advance.rest =
      childName.chars ++ (singleAttributeChars front attr text back ++
        (trail ++ (name.closingChars ++ rest))) := by
    rw [hinside, ← htail, List.append_assoc]
  obtain ⟨child, hname, hself, hdepth, hclose, hspan, hreads⟩ :=
    htext.reads_element (depth + 1) (c.past lead).offset hne hfront hback hchild
  rw [htail] at hspan hreads
  have hend : Reads (.children depth) (((c.past lead).past ('<' :: tail)).past trail) _ :=
    .childrenClose hclosing
  rw [closingTag_eq hclosing] at hend
  have hread := Reads.pastChildText hlead hall (.childrenElement hopened hfollows hreads
    (.pastChildText htrail hbehind hend))
  refine ⟨child, name.placedClosing (((c.past lead).past ('<' :: tail)).past trail).offset,
    ⟨hname, ⟨hself, hclose⟩, hdepth, ?_, ?_, hclosingIn.covers hclosing⟩, ?_⟩
  · rw [hspan]
    exact c.offset_le_drop _
  · rw [hspan]
    exact Cursor.offset_le_drop _ _
  · simp only [onlyChildChars, Cursor.past_append]
    exact hread

/-- How an opening tag is written. -/
def openingTagChars (name : TagName) (attributes : List CodeAttribute) : List Char :=
  '<' :: (name.chars ++ (attributesChars attributes ++ tagEnd false))

/-- An element is its opening tag and then what is read behind that. -/
theorem Reads.opened {name : TagName} {attributes : List CodeAttribute} {content : List Char}
    {closing : ClosingTag} {inside : List Element} {depth : Nat}
    (hnone : ∀ depth start, attributesElements depth start attributes = [])
    (h : c.rest = openingTagChars name attributes ++ (content ++ rest))
    (hinside : Reads (.children depth) (c.past (openingTagChars name attributes))
      (.having (some closing) inside ((c.past (openingTagChars name attributes)).past content))) :
    ∃ element : Element, element.name = String.ofList name.chars ∧ element.depth = depth ∧
      element.attributes = attributesPlaced (c.offset + 1 + utf8Length name.chars) attributes ∧
      element.span.stop = (c.past (openingTagChars name attributes)).offset ∧
      element.close = some closing ∧
      Reads (.element depth c.offset) c.advance (.having () (element :: inside)
        (c.past (openingTagChars name attributes ++ content))) := by
  have hopen : c.rest = ['<'] ++ (name.chars ++ (attributesChars attributes ++
      (tagEnd false ++ (content ++ rest)))) := by
    rw [h, openingTagChars]
    simp only [List.cons_append, List.append_assoc, List.nil_append]
  have hname : c.advance.rest = name.chars ++ (attributesChars attributes ++
      (tagEnd false ++ (content ++ rest))) := Cursor.rest_past _ hopen
  have hstart : c.advance.offset = c.offset + 1 := Cursor.offset_past _ hopen
  have hbody := reads_attributes attributes false depth (Cursor.rest_past _ hname)
  have hopening := Reads.codeOpening hstart hname hbody
  rw [hnone] at hopening
  have hread := Reads.elementFull hopening rfl hinside
  refine ⟨name.placed (attributesChars attributes)
    (attributesPlaced (c.offset + 1 + utf8Length name.chars) attributes) false depth c.offset
    (some closing), rfl, rfl, rfl, ?_, rfl, ?_⟩
  · rw [Cursor.offset_past _ h, openingTagChars, utf8Length, ← Nat.add_assoc]
    rfl
  · rw [Cursor.past_append]
    exact hread

/-- Code whose only braces are around one element. -/
theorem ofCode_aroundElement {source : String} {front lead tail trail back : List Char}
    {elements : List Element}
    (hfront : IsQuiet front) (hlead : IsQuiet lead) (htrail : IsQuiet trail) (hback : IsQuiet back)
    (hopens : ∀ before, opensElement (lead.reverse ++ before) (tail ++ (trail ++ '}' :: back)) = true)
    (hsource : source.toList = front ++ ('{' :: (lead ++ ('<' :: tail ++ (trail ++ '}' :: back)))))
    (helement : let c := (((Cursor.start source.toList).past front).past ['{']).past lead
      Reads (.element 0 c.offset) c.advance (.having () elements (c.past ('<' :: tail)))) :
    Element.ofCode source = .ok elements := by
  let c := (Cursor.start source.toList).past front
  have hbrace : c.rest = '{' :: (lead ++ ('<' :: tail ++ (trail ++ '}' :: back))) :=
    Cursor.rest_past front hsource
  have hinside : (c.past ['{']).rest = lead ++ ('<' :: tail ++ (trail ++ '}' :: back)) :=
    Cursor.rest_past ['{'] hbrace
  let tag := (c.past ['{']).past lead
  have htag : tag.rest = '<' :: tail ++ (trail ++ '}' :: back) := Cursor.rest_past lead hinside
  have hoperand : opensElement tag.before (tail ++ (trail ++ '}' :: back)) = true := by
    rw [Cursor.before_past lead hinside]
    exact hopens _
  let after := tag.past ('<' :: tail)
  have hafter : after.rest = trail ++ '}' :: back := Cursor.rest_past ('<' :: tail) htag
  have hclose : (after.past trail).rest = '}' :: back := Cursor.rest_past trail hafter
  have hend : (after.past trail).advance.rest = back ++ [] := by
    rw [List.append_nil]
    exact Cursor.rest_past ['}'] hclose
  have hcode : Reads (.code false 1 0) after _ :=
    htrail hafter (.codeClose hclose (by simp) (hback hend (.codeEnd (Cursor.rest_past back hend))))
  have hreads : Reads (.code false 0 0) (.start source.toList) _ :=
    hfront hsource (.codeOpen hbrace (hlead hinside (.codeElement htag hoperand helement hcode)))
  have hread : (readCode false 0 0 _).val = _ := hreads.read_eq
  rw [Element.ofCode, hread]
  simp [Reading.andThen, Reading.having, Reading.found]

/-- Code whose only braces are around one element, which stands where an operand is expected. -/
theorem ofCode_inBraces {source : String} {front lead content trail back : List Char}
    {name : TagName} {attributes : List CodeAttribute} {elements : List Element}
    (hfront : IsQuiet front) (hlead : IsQuiet lead) (htrail : IsQuiet trail) (hback : IsQuiet back)
    (hbefore : ∀ before, Lexical.operandFollows (lead.reverse ++ before) = true)
    (hsource : source.toList = front ++ ('{' :: (lead ++ (openingTagChars name attributes ++
      (content ++ (trail ++ '}' :: back))))))
    (helement : let c := (((Cursor.start source.toList).past front).past ['{']).past lead
      Reads (.element 0 c.offset) c.advance
        (.having () elements (c.past (openingTagChars name attributes ++ content)))) :
    Element.ofCode source = .ok elements := by
  let tail := name.chars ++ (attributesChars attributes ++ tagEnd false) ++ content
  have htail : openingTagChars name attributes ++ content = '<' :: tail := rfl
  rw [← List.append_assoc (openingTagChars name attributes), htail] at hsource
  refine ofCode_aroundElement hfront hlead htrail hback (fun before => ?_) hsource helement
  have hopens := opensElement_tag name attributes false (hbefore before)
    (content ++ (trail ++ '}' :: back))
  simpa [tail] using hopens

end Quiet

end ComponentTags
