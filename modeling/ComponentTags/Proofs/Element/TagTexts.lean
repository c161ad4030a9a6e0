import ComponentTags.Proofs.Element.Determinacy
import ComponentTags.Proofs.Source.Passages

/-!
Tags as texts. Names, attributes and the ends of tags as they are written, and what is read of them in
either syntax.
-/

namespace ComponentTags

/-- A text with characters of one class. -/
structure Run (p : Char → Bool) where
  chars : List Char
  all : ∀ ch ∈ chars, p ch = true

/-- A character of text between tags. -/
def isChildChar (ch : Char) : Bool :=
  ch != '<' && ch != '{'

structure TagName where
  first : Char
  isStart : Lexical.isNameStart first = true
  others : Run Lexical.isNameChar

def TagName.chars (name : TagName) : List Char :=
  name.first :: name.others.chars

structure AttributeName extends Run Lexical.isAttributeNameChar where
  nonempty : chars ≠ []

inductive Quote where
  | single
  | double
deriving DecidableEq, Repr

def Quote.char : Quote → Char
  | single => '\''
  | double => '"'

/-- A text in quotes. -/
def Quote.around (quote : Quote) (chars : List Char) : List Char :=
  quote.char :: (chars ++ [quote.char])

/-- An attribute that both syntaxes have. -/
inductive PlainAttribute where
  | flag (name : AttributeName)
  | quoted (name : AttributeName) (quote : Quote) (value : Run (· != quote.char))

namespace PlainAttribute

def name : PlainAttribute → AttributeName
  | flag name | quoted name _ _ => name

def valueChars : PlainAttribute → List Char
  | flag _ => []
  | quoted _ quote value => '=' :: quote.around value.chars

def value : PlainAttribute → Option AttributeValue
  | flag _ => none
  | quoted _ _ value => some (.literal (String.ofList value.chars))

def chars (attr : PlainAttribute) : List Char :=
  attr.name.chars ++ attr.valueChars

end PlainAttribute

/-- The attribute that is written with that text from an offset on. -/
def AttributeName.placed (name : AttributeName) (value : Option AttributeValue)
    (valueChars : List Char) (start : Nat) : Attribute where
  name := String.ofList name.chars
  value := value
  span := ⟨start, start + utf8Length (name.chars ++ valueChars)⟩

def PlainAttribute.placed (attr : PlainAttribute) (start : Nat) : Attribute :=
  attr.name.placed attr.value attr.valueChars start

def tagEnd (selfClosing : Bool) : List Char :=
  if selfClosing then ['/', '>'] else ['>']

/-- The element whose opening tag is written from an offset on, with that text between its name and its
end. -/
def TagName.placed (name : TagName) (attributeChars : List Char) (attributes : List Attribute)
    (selfClosing : Bool) (depth start : Nat) (close : Option ClosingTag) : Element where
  name := String.ofList name.chars
  nameSpan := ⟨start + 1, start + 1 + utf8Length name.chars⟩
  span := ⟨start, start + 1 + utf8Length (name.chars ++ (attributeChars ++ tagEnd selfClosing))⟩
  attributes := attributes
  attrsEnd := start + 1 + utf8Length (name.chars ++ attributeChars)
  selfClosing := selfClosing
  depth := depth
  close := close

def TagName.closingChars (name : TagName) : List Char :=
  '<' :: '/' :: (name.chars ++ ['>'])

def TagName.placedClosing (name : TagName) (start : Nat) : ClosingTag where
  nameSpan := ⟨start + 2, start + 2 + utf8Length name.chars⟩
  span := ⟨start, start + utf8Length name.closingChars⟩

/-- What may stand behind an attribute: another one, or the end of the tag. -/
inductive EndsAttribute : List Char → Prop where
  | blank {ch : Char} {rest : List Char} (hblank : Ascii.isBlank ch = false) (hequals : ch ≠ '=') :
      EndsAttribute (' ' :: ch :: rest)
  | close (rest : List Char) : EndsAttribute ('>' :: rest)
  | selfClose (rest : List Char) : EndsAttribute ('/' :: '>' :: rest)

section Texts

variable {c : Cursor} {rest more : List Char} {style : TagSyntax} {depth start attrsEnd : Nat}

theorem isBlank_of_isAttributeNameChar {ch : Char} (h : Lexical.isAttributeNameChar ch = true) :
    Ascii.isBlank ch = false := by
  simp only [Lexical.isAttributeNameChar, Bool.and_eq_true, Bool.not_eq_true'] at h
  exact h.1

theorem TagName.isNameChar (name : TagName) : ∀ ch ∈ name.chars, Lexical.isNameChar ch = true := by
  intro ch hch
  rcases List.mem_cons.1 hch with rfl | hmem
  · simp [Lexical.isNameChar, name.isStart]
  · exact name.others.all ch hmem

theorem AttributeName.exists_cons (name : AttributeName) :
    ∃ ch chars, name.chars = ch :: chars ∧ Lexical.isAttributeNameChar ch = true := by
  obtain ⟨ch, chars, heq⟩ := List.exists_cons_of_ne_nil name.nonempty
  exact ⟨ch, chars, heq, name.all ch (by rw [heq]; exact List.mem_cons_self)⟩

/-- What starts with an attribute name may stand behind another attribute. -/
theorem AttributeName.begins (name : AttributeName) (more : List Char) :
    ∃ ch chars, name.chars ++ more = ch :: chars ∧ Ascii.isBlank ch = false ∧ ch ≠ '=' := by
  obtain ⟨ch, chars, hname, hch⟩ := name.exists_cons
  refine ⟨ch, chars ++ more, by rw [hname, List.cons_append], isBlank_of_isAttributeNameChar hch, ?_⟩
  rintro rfl
  exact absurd hch (by decide)

namespace EndsAttribute

theorem stopsAt_name (h : EndsAttribute rest) : StopsAt Lexical.isAttributeNameChar rest := by
  cases h <;> exact stopsAt_cons (by decide)

theorem stopsAt_tagName (h : EndsAttribute rest) : StopsAt Lexical.isNameChar rest := by
  cases h <;> exact stopsAt_cons (by decide)

theorem head?_ne_equals (h : EndsAttribute c.rest) :
    (c.skipWhile Ascii.isBlank).rest.head? ≠ some '=' := by
  generalize hrest : c.rest = rest at h
  cases h with
  | blank hblank hequals =>
      have hskip := Cursor.skipWhile_eq_past [' '] (p := Ascii.isBlank)
        hrest (List.all_eq_true.1 rfl) (stopsAt_cons hblank)
      rw [hskip, Cursor.rest_past [' '] hrest]
      simpa using hequals
  | close | selfClose =>
      rw [Cursor.skipWhile_eq_self (by rw [hrest]; exact stopsAt_cons (by decide)), hrest]
      simp

theorem of_tagEnd (selfClosing : Bool) (rest : List Char) :
    EndsAttribute (tagEnd selfClosing ++ rest) := by
  cases selfClosing with
  | true => exact .selfClose rest
  | false => exact .close rest

end EndsAttribute

/-! ### Readings -/

/-- What is read of a text that holds those elements. -/
def Reading.having {α : Type} (value : α) (elements : List Element) (next : Cursor) : Reading α :=
  { value, elements, next, severed := false }

@[simp]
theorem Reading.found_andThen {α β : Type} (value : α) (next : Cursor) (reading : Reading β) :
    (Reading.found value next).andThen reading = reading := by
  cases reading
  rfl

/-- An attribute is read past its name, then its value, then what follows. -/
theorem Reads.namedAfter {name : AttributeName} {blanks : List Char}
    {value : Reading (Option AttributeValue)} {body : Reading TagBody}
    (hblanks : ∀ ch ∈ blanks, Ascii.isBlank ch = true) (h : c.rest = blanks ++ (name.chars ++ more))
    (hmore : StopsAt Lexical.isAttributeNameChar more)
    (hvalue : Reads (.attributeValue style depth) ((c.past blanks).past name.chars) value)
    (hbody : Reads (.tagBody style depth value.next.offset) value.next body) :
    Reads (.tagBody style depth attrsEnd) c (value.andThen (body.map (.cons
      { name := String.ofList name.chars
        value := value.value
        span := ⟨(c.past blanks).offset, value.next.offset⟩ }))) := by
  obtain ⟨ch, chars, hname, hch⟩ := name.exists_cons
  have hhere : c.past blanks = c.skipWhile Ascii.isBlank := by
    refine (Cursor.skipWhile_eq_past blanks h hblanks ?_).symm
    rw [hname]
    exact stopsAt_cons (isBlank_of_isAttributeNameChar hch)
  have hrest : (c.past blanks).rest = name.chars ++ more := Cursor.rest_past blanks h
  have htaken : name.chars = (name.chars ++ more).takeWhile Lexical.isAttributeNameChar :=
    (takeWhile_append_of_stopsAt name.all hmore).symm
  rw [hname] at htaken hrest
  rw [hname] at hvalue ⊢
  exact .bodyAttribute hhere hrest hch htaken hvalue hbody

theorem Reads.named {name : AttributeName} {value : Reading (Option AttributeValue)}
    {body : Reading TagBody} (h : c.rest = ' ' :: (name.chars ++ more))
    (hmore : StopsAt Lexical.isAttributeNameChar more)
    (hvalue : Reads (.attributeValue style depth) (c.past (' ' :: name.chars)) value)
    (hbody : Reads (.tagBody style depth value.next.offset) value.next body) :
    Reads (.tagBody style depth attrsEnd) c (value.andThen (body.map (.cons
      { name := String.ofList name.chars
        value := value.value
        span := ⟨c.offset + 1, value.next.offset⟩ }))) := by
  have hoffset : (c.past [' ']).offset = c.offset + 1 := Cursor.offset_past [' '] h
  rw [← hoffset]
  exact .namedAfter (List.all_eq_true.1 rfl) h hmore hvalue hbody

theorem Reads.valueFlag (h : EndsAttribute c.rest) :
    Reads (.attributeValue style depth) c (.found none c) :=
  .valueNone h.head?_ne_equals

/-- Where a value starts that follows its `=` at once. -/
theorem skip_equals {ch : Char} (h : c.rest = '=' :: ch :: rest) (hblank : Ascii.isBlank ch = false) :
    (c.skipWhile Ascii.isBlank).rest.head? = some '=' ∧
      c.past ['='] = (c.skipWhile Ascii.isBlank).advance.skipWhile Ascii.isBlank := by
  have hself : c.skipWhile Ascii.isBlank = c :=
    Cursor.skipWhile_eq_self (by rw [h]; exact stopsAt_cons (by decide))
  have hnext : (c.past ['=']).rest = ch :: rest := Cursor.rest_past ['='] h
  rw [hself, h]
  exact ⟨rfl, (Cursor.skipWhile_eq_self (c := c.past ['='])
    (by rw [hnext]; exact stopsAt_cons hblank)).symm⟩

theorem Quote.isBlank_char (quote : Quote) : Ascii.isBlank quote.char = false := by
  cases quote <;> decide

theorem Reads.valueInQuotes {quote : Quote} {value : Run (· != quote.char)}
    (h : c.rest = '=' :: (quote.around value.chars ++ rest)) :
    Reads (.attributeValue style depth) c
      (.found (some (.literal (String.ofList value.chars)))
        (c.past ('=' :: quote.around value.chars))) := by
  have hopen : c.rest = '=' :: quote.char :: (value.chars ++ quote.char :: rest) := by
    simp [h, Quote.around]
  obtain ⟨hequals, hhere⟩ := skip_equals hopen quote.isBlank_char
  have hrest : (c.past ['=']).rest = quote.char :: (value.chars ++ quote.char :: rest) :=
    Cursor.rest_past ['='] hopen
  have hquote : quote.char = '"' ∨ quote.char = '\'' := by
    cases quote
    · exact .inr rfl
    · exact .inl rfl
  have hread : Reads (.attributeValue style depth) c (quotedValue quote.char (c.past ['=']).advance) :=
    .valueQuoted hequals hhere hrest hquote
  have hvalue : (c.past ['=']).advance.rest = value.chars ++ quote.char :: rest :=
    Cursor.rest_past [quote.char] hrest
  have htaken : (c.past ['=']).advance.rest.takeWhile (· != quote.char) = value.chars := by
    rw [hvalue]
    exact takeWhile_append_of_stopsAt value.all (stopsAt_cons (by simp))
  rw [quotedValue, htaken] at hread
  rw [Quote.around, Cursor.past_cons, Cursor.past_cons, Cursor.past_append]
  exact hread

/-- What is read of an attribute, as it is written from an offset on. -/
theorem Reads.placed {name : AttributeName} {value : Option AttributeValue} {valueChars : List Char}
    {elements : List Element} {body : Reading TagBody}
    (h : c.rest = ' ' :: (name.chars ++ (valueChars ++ rest)))
    (hstops : StopsAt Lexical.isAttributeNameChar (valueChars ++ rest))
    (hvalue : Reads (.attributeValue style depth) (c.past (' ' :: name.chars))
      (.having value elements ((c.past (' ' :: name.chars)).past valueChars)))
    (hbody : Reads (.tagBody style depth (c.past (' ' :: (name.chars ++ valueChars))).offset)
      (c.past (' ' :: (name.chars ++ valueChars))) body) :
    Reads (.tagBody style depth attrsEnd) c
      { body with
        value := body.value.cons (name.placed value valueChars (c.offset + 1))
        elements := elements ++ body.elements } := by
  have hpast : (c.past (' ' :: name.chars)).past valueChars =
      c.past (' ' :: (name.chars ++ valueChars)) := by
    rw [← Cursor.past_append, List.cons_append]
  rw [hpast] at hvalue
  have hoffset : (c.past (' ' :: (name.chars ++ valueChars))).offset =
      c.offset + 1 + utf8Length (name.chars ++ valueChars) := by
    have hall : c.rest = ' ' :: (name.chars ++ valueChars) ++ rest := by simp [h]
    rw [Cursor.offset_past _ hall, utf8Length, ← Nat.add_assoc]
    rfl
  have hread : Reads (.tagBody style depth attrsEnd) c _ := .named h hstops hvalue hbody
  simp only [Reading.having, hoffset] at hread
  rw [AttributeName.placed]
  exact hread

theorem Reads.plain {attr : PlainAttribute} {body : Reading TagBody}
    (h : c.rest = ' ' :: (attr.chars ++ rest)) (hrest : EndsAttribute rest)
    (hbody : Reads (.tagBody style depth (c.past (' ' :: attr.chars)).offset)
      (c.past (' ' :: attr.chars)) body) :
    Reads (.tagBody style depth attrsEnd) c
      { body with value := body.value.cons (attr.placed (c.offset + 1)) } := by
  cases attr with
  | flag name =>
      have hname : c.rest = ' ' :: (name.chars ++ ([] ++ rest)) := by
        rw [h, PlainAttribute.chars, List.append_assoc]
        rfl
      have hvalue : Reads (.attributeValue style depth) (c.past (' ' :: name.chars))
          (.found none (c.past (' ' :: name.chars))) := by
        refine .valueFlag ?_
        rwa [Cursor.rest_past (' ' :: name.chars) hname]
      exact .placed hname hrest.stopsAt_name hvalue hbody
  | quoted name quote value =>
      have hname : c.rest = ' ' :: (name.chars ++ ('=' :: quote.around value.chars ++ rest)) := by
        rw [h, PlainAttribute.chars, List.append_assoc]
        rfl
      exact .placed hname (stopsAt_cons (by decide))
        (.valueInQuotes (Cursor.rest_past (' ' :: name.chars) hname)) hbody

/-- The end of a tag, behind its name or its last attribute. -/
theorem Reads.endingAfter {blanks : List Char} {selfClosing : Bool}
    (hblanks : ∀ ch ∈ blanks, Ascii.isBlank ch = true)
    (h : c.rest = blanks ++ (tagEnd selfClosing ++ rest)) :
    Reads (.tagBody style depth attrsEnd) c
      (.found (.last attrsEnd selfClosing) (c.past (blanks ++ tagEnd selfClosing))) := by
  have hend := Cursor.rest_past blanks h
  rw [Cursor.past_append]
  cases selfClosing with
  | true =>
      have hstops : StopsAt Ascii.isBlank (tagEnd true ++ rest) := stopsAt_cons (by decide)
      exact .bodySelfClose (Cursor.skipWhile_eq_past blanks h hblanks hstops).symm hend
  | false =>
      have hstops : StopsAt Ascii.isBlank (tagEnd false ++ rest) := stopsAt_cons (by decide)
      exact .bodyClose (Cursor.skipWhile_eq_past blanks h hblanks hstops).symm hend

theorem Reads.ending {selfClosing : Bool} (h : c.rest = tagEnd selfClosing ++ rest) :
    Reads (.tagBody style depth attrsEnd) c
      (.found (.last attrsEnd selfClosing) (c.past (tagEnd selfClosing))) := by
  have hrest : c.rest = [] ++ (tagEnd selfClosing ++ rest) := h
  have hblanks : ∀ ch ∈ [], Ascii.isBlank ch = true := nofun
  exact .endingAfter hblanks hrest

/-- What is read of the attributes of a tag that goes on with that text. -/
def TagName.body (name : TagName) (attributeChars : List Char) (attributes : List Attribute)
    (selfClosing : Bool) (start : Nat) : TagBody where
  attributes := attributes
  attrsEnd := start + 1 + utf8Length (name.chars ++ attributeChars)
  selfClosing := selfClosing

theorem Reads.opening {name : TagName} {attributeChars : List Char} {attributes : List Attribute}
    {selfClosing : Bool} {elements : List Element} (hstart : c.offset = start + 1)
    (h : c.rest = name.chars ++ (attributeChars ++ (tagEnd selfClosing ++ rest)))
    (hstops : StopsAt Lexical.isNameChar
      (attributeChars ++ (tagEnd selfClosing ++ rest)))
    (hbody : Reads (.tagBody style depth (c.past name.chars).offset) (c.past name.chars)
      (.having (name.body attributeChars attributes selfClosing start) elements
        ((c.past name.chars).past (attributeChars ++ tagEnd selfClosing)))) :
    Reads (.openingTag style depth start) c
      (.having (name.placed attributeChars attributes selfClosing depth start none) elements
        (c.past (name.chars ++ (attributeChars ++ tagEnd selfClosing)))) := by
  have htaken : c.rest.takeWhile Lexical.isNameChar = name.chars := by
    rw [h]
    exact takeWhile_append_of_stopsAt name.isNameChar hstops
  have hpast : c.past name.chars = c.drop (c.rest.takeWhile Lexical.isNameChar).length := by
    rw [htaken, Cursor.past]
  have hread : Reads (.openingTag style depth start) c _ := .openingTag hpast hbody
  have hname : (c.past name.chars).offset = start + 1 + utf8Length name.chars := by
    rw [Cursor.offset_past _ h, hstart]
  have hnext : (c.past (name.chars ++ (attributeChars ++ tagEnd selfClosing))).offset =
      start + 1 + utf8Length (name.chars ++ (attributeChars ++ tagEnd selfClosing)) := by
    have hall : c.rest = name.chars ++ (attributeChars ++ tagEnd selfClosing) ++ rest := by simp [h]
    rw [Cursor.offset_past _ hall, hstart]
  rw [← Cursor.past_append] at hread
  simp only [Reading.map, Reading.having, openedElement, htaken] at hread
  rw [← Cursor.past, hname, hnext, hstart] at hread
  exact hread

theorem isBlank_of_isNameStart {ch : Char} (h : Lexical.isNameStart ch = true) :
    Ascii.isBlank ch = false := by
  refine Bool.eq_false_iff.2 fun hblank => ?_
  simp only [Ascii.isBlank, Bool.or_eq_true, beq_iff_eq] at hblank
  rcases hblank with (((rfl | rfl) | rfl) | rfl) | rfl <;> exact absurd h (by decide)

theorem closingTag_eq {name : TagName} (h : c.rest = name.closingChars ++ rest) :
    closingTag c = .found (String.ofList name.chars, name.placedClosing c.offset)
      (c.past name.closingChars) := by
  have hopen : c.rest = ['<', '/'] ++ (name.chars ++ '>' :: rest) := by
    simp [h, TagName.closingChars]
  have hname : (c.drop 2).rest = name.chars ++ '>' :: rest :=
    Cursor.rest_past ['<', '/'] hopen
  have hstart : (c.drop 2).skipWhile Ascii.isBlank = c.drop 2 := by
    refine Cursor.skipWhile_eq_self ?_
    rw [hname]
    exact stopsAt_cons (isBlank_of_isNameStart name.isStart)
  have htaken : (c.drop 2).rest.takeWhile Lexical.isNameChar = name.chars := by
    rw [hname]
    exact takeWhile_append_of_stopsAt name.isNameChar (stopsAt_cons (by decide))
  have hend : ((c.drop 2).past name.chars).rest = '>' :: rest := Cursor.rest_past _ hname
  have hlength : lengthPast ['>'] ('>' :: rest) = 1 := by simp [lengthPast]
  have hpast : ((c.drop 2).past name.chars).drop 1 = c.past name.closingChars := by
    rw [TagName.closingChars, Cursor.past_cons, Cursor.past_cons, Cursor.past_append]
    rfl
  have hoffset : (c.drop 2).offset = c.offset + 2 := Cursor.offset_past ['<', '/'] hopen
  rw [closingTag, hstart, htaken, ← Cursor.past, hend, hlength, hpast, Cursor.offset_past _ h,
    Cursor.offset_past _ hname, hoffset]
  rfl

end Texts

end ComponentTags
