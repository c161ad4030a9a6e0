import ComponentTags.Element.Basic
import ComponentTags.Element.Lexical

/-!
Reading tags. Opening tags, attributes and closing tags have one grammar in both syntaxes; code in
braces stands in tags of the code syntax alone, and there elements nest through it. Each reader says
in its type that it never goes back, which is why the recursion ends.
-/

namespace ComponentTags

/-- What tags stand in: a module of code, where braces hold expressions, or markup. -/
inductive TagSyntax where
  | code
  | markup
deriving DecidableEq, Repr, Inhabited

/--
What reading gives: a value, the elements found on the way in the order of their opening tags, and
the place where reading stopped. It is `severed` when the text ends inside an attribute's expression
and the last character, which is cut off as the closing brace is, takes more than one byte.
-/
structure Reading (α : Type) where
  value : α
  elements : List Element
  next : Cursor
  severed : Bool

namespace Reading

def found {α : Type} (value : α) (next : Cursor) : Reading α :=
  { value, elements := [], next, severed := false }

def andThen {α β : Type} (first : Reading α) (second : Reading β) : Reading β :=
  { second with
    elements := first.elements ++ second.elements
    severed := first.severed || second.severed }

def map {α β : Type} (f : α → β) (reading : Reading α) : Reading β :=
  { reading with value := f reading.value }

/-- The element that was opened goes before the elements found inside its opening tag. -/
def enclosedBy (opening : Reading Element) (close : Option ClosingTag) : Reading Unit :=
  { opening with
    value := ()
    elements := { opening.value with close := close } :: opening.elements }

@[simp]
theorem next_found {α : Type} (value : α) (next : Cursor) : (found value next).next = next :=
  rfl

@[simp]
theorem next_andThen {α β : Type} (first : Reading α) (second : Reading β) :
    (first.andThen second).next = second.next :=
  rfl

@[simp]
theorem next_map {α β : Type} (f : α → β) (reading : Reading α) : (reading.map f).next = reading.next :=
  rfl

end Reading

/-- A reading that starts at `c` and does not go back from there. -/
abbrev ReadingFrom (c : Cursor) (α : Type) :=
  { reading : Reading α // reading.next.remaining ≤ c.remaining }

namespace ReadingFrom

@[inline]
def found {c : Cursor} {α : Type} (value : α) (n : Nat) : ReadingFrom c α :=
  ⟨.found value (c.drop n), by simp⟩

@[inline]
def since {c d : Cursor} {α : Type} (reading : ReadingFrom d α)
    (h : d.remaining ≤ c.remaining := by simp) : ReadingFrom c α :=
  ⟨reading.val, Nat.le_trans reading.property h⟩

@[inline]
def andThen {c : Cursor} {α β : Type} (first : ReadingFrom c α)
    (second : (done : Reading α) → done.next.remaining ≤ c.remaining → ReadingFrom done.next β) :
    ReadingFrom c β :=
  let after := second first.val first.property
  ⟨first.val.andThen after.val, Nat.le_trans after.property first.property⟩

@[inline]
def map {c : Cursor} {α β : Type} (f : α → β) (reading : ReadingFrom c α) : ReadingFrom c β :=
  ⟨reading.val.map f, reading.property⟩

end ReadingFrom

structure TagBody where
  attributes : List Attribute
  attrsEnd : Nat
  selfClosing : Bool
deriving DecidableEq, Repr, Inhabited

def TagBody.last (attrsEnd : Nat) (selfClosing : Bool) : TagBody :=
  { attributes := [], attrsEnd, selfClosing }

def TagBody.cons (first : Attribute) (body : TagBody) : TagBody :=
  { body with attributes := first :: body.attributes }

/--
The value of an attribute in braces: the code read from `c` on, without its last character, which is
the closing brace unless the text ends first.
-/
def expressionValue (c : Cursor) (code : Reading Unit) : Reading (Option AttributeValue) :=
  let text := c.textTo code.next
  { value := some (.expression (String.ofList text.dropLast))
    elements := code.elements
    next := code.next
    severed := code.severed || text.getLast?.any fun ch => !Ascii.isAscii ch }

/--
The value of an attribute without quotes. A `/` right before the `>` belongs to the tag, so it is
left unread.
-/
def unquotedValue (c : Cursor) : Reading (Option AttributeValue) :=
  let text := c.rest.takeWhile Lexical.isUnquotedChar
  let tagEnds := (c.rest.dropWhile Lexical.isUnquotedChar).head? == some '>'
  let text := if tagEnds && text.getLast? == some '/' then text.dropLast else text
  .found (some (.literal (String.ofList text))) (c.drop text.length)

/-- The value of an attribute in quotes, after the opening one. Without a closing quote it is all that is left. -/
def quotedValue (quote : Char) (c : Cursor) : Reading (Option AttributeValue) :=
  let text := c.rest.takeWhile (· != quote)
  .found (some (.literal (String.ofList text))) (c.drop text.length).advance

/-- A closing tag at its `<`. Whatever stands between the name and the next `>` belongs to it. -/
def closingTag (c : Cursor) : Reading (String × ClosingTag) :=
  let nameStart := (c.drop 2).skipWhile Ascii.isBlank
  let name := nameStart.rest.takeWhile Lexical.isNameChar
  let afterName := nameStart.drop name.length
  let next := afterName.drop (lengthPast ['>'] afterName.rest)
  .found
    (String.ofList name,
      { nameSpan := ⟨nameStart.offset, afterName.offset⟩, span := ⟨c.offset, next.offset⟩ })
    next

theorem remaining_unquotedValue_le (c : Cursor) :
    (unquotedValue c).next.remaining ≤ c.remaining := by
  simp [unquotedValue]

theorem remaining_quotedValue_le (quote : Char) (c : Cursor) :
    (quotedValue quote c).next.remaining ≤ c.remaining := by
  simp [quotedValue]
  omega

theorem remaining_closingTag_le (c : Cursor) :
    (closingTag c).next.remaining ≤ c.remaining - 2 := by
  have h := Cursor.remaining_skipWhile_le Ascii.isBlank (c.drop 2)
  simp only [closingTag, Reading.next_found, Cursor.remaining_drop] at h ⊢
  omega

mutual

/--
Reads code up to the end of the text or, in braces, past the brace that closes them; `openBraces`
braces of the code's own are still open.
-/
def readCode (inBraces : Bool) (openBraces depth : Nat) (c : Cursor) : ReadingFrom c Unit :=
  match h : c.rest with
  | [] => .found () 0
  | '\x60' :: _ =>
      ((readTemplate depth c.advance).andThen fun template _ =>
        readCode inBraces openBraces depth template.next).since
  | '{' :: _ => (readCode inBraces (openBraces + 1) depth c.advance).since
  | '}' :: _ =>
      if openBraces = 0 && inBraces then .found () 1
      else (readCode inBraces (openBraces - 1) depth c.advance).since
  | '<' :: rest =>
      if Lexical.operandFollows c.before && Lexical.elementFollows rest
          && !Lexical.typeParametersFollow rest then
        ((readElement depth c.offset c.advance).andThen fun element _ =>
          readCode inBraces openBraces depth element.next).since
      else
        (readCode inBraces openBraces depth c.advance).since
  | ch :: rest =>
      have positive := Lexical.plainLength_pos (List.cons_ne_nil ch rest)
      (readCode inBraces openBraces depth (c.drop (Lexical.plainLength (ch :: rest)))).since
termination_by 4 * c.remaining
decreasing_by
  all_goals have := Cursor.remaining_of_rest h
  all_goals simp only [Cursor.remaining_advance, Cursor.remaining_drop] at *
  all_goals omega

def readTemplate (depth : Nat) (c : Cursor) : ReadingFrom c Unit :=
  match h : c.rest with
  | [] => .found () 0
  | '\x60' :: _ => .found () 1
  | '\\' :: _ => (readTemplate depth (c.drop 2)).since
  | '$' :: '{' :: _ =>
      ((readCode true 0 depth (c.drop 2)).andThen fun hole _ =>
        readTemplate depth hole.next).since
  | _ :: _ => (readTemplate depth c.advance).since
termination_by 4 * c.remaining
decreasing_by
  all_goals have := Cursor.remaining_of_rest h
  all_goals simp only [Cursor.remaining_advance, Cursor.remaining_drop] at *
  all_goals omega

def readElement (depth start : Nat) (c : Cursor) : ReadingFrom c Unit :=
  match readOpeningTag .code depth start c with
  | ⟨opening, fromStart⟩ =>
      if opening.value.selfClosing then
        ⟨opening.enclosedBy none, fromStart⟩
      else
        let children := readChildren depth opening.next
        ⟨(opening.enclosedBy children.val.value).andThen (children.val.map fun _ => ()),
          Nat.le_trans children.property fromStart⟩
termination_by 4 * c.remaining + 2
decreasing_by all_goals omega

def readChildren (depth : Nat) (c : Cursor) : ReadingFrom c (Option ClosingTag) :=
  match h : c.rest with
  | [] => .found none 0
  | '{' :: _ =>
      ((readCode true 0 (depth + 1) c.advance).andThen fun hole _ =>
        readChildren depth hole.next).since
  | '<' :: '/' :: _ =>
      ⟨(closingTag c).map fun tag => some tag.2, Nat.le_trans (remaining_closingTag_le c) (Nat.sub_le _ _)⟩
  | '<' :: rest =>
      if Lexical.elementFollows rest then
        ((readElement (depth + 1) c.offset c.advance).andThen fun element _ =>
          readChildren depth element.next).since
      else
        (readChildren depth c.advance).since
  | _ :: _ => (readChildren depth c.advance).since
termination_by 4 * c.remaining
decreasing_by
  all_goals have := Cursor.remaining_of_rest h
  all_goals simp only [Cursor.remaining_advance] at *
  all_goals omega

def readOpeningTag (style : TagSyntax) (depth start : Nat) (c : Cursor) : ReadingFrom c Element :=
  let name := c.rest.takeWhile Lexical.isNameChar
  let afterName := c.drop name.length
  let body := readTagBody style depth afterName.offset afterName
  (body.map fun tag =>
    { name := String.ofList name
      nameSpan := ⟨c.offset, afterName.offset⟩
      span := ⟨start, body.val.next.offset⟩
      attributes := tag.attributes
      attrsEnd := tag.attrsEnd
      selfClosing := tag.selfClosing
      depth := depth
      close := none }).since (by simp [afterName])
termination_by 4 * c.remaining + 1

/-- Reads attributes up to and past the end of the tag; the last one so far ends at `attrsEnd`. -/
def readTagBody (style : TagSyntax) (depth attrsEnd : Nat) (c : Cursor) : ReadingFrom c TagBody :=
  let here := c.skipWhile Ascii.isBlank
  have fromHere : here.remaining ≤ c.remaining := Cursor.remaining_skipWhile_le _ _
  match h : here.rest with
  | [] => (ReadingFrom.found (.last attrsEnd false) 0).since fromHere
  | '/' :: '>' :: _ => (ReadingFrom.found (.last attrsEnd true) 2).since fromHere
  | '>' :: _ => (ReadingFrom.found (.last attrsEnd false) 1).since fromHere
  | ch :: rest =>
      if ch = '{' && style = .code then
        ((readCode true 0 (depth + 1) here.advance).andThen fun spread _ =>
          readTagBody style depth spread.next.offset spread.next).since (by simp; omega)
      else if named : Lexical.isAttributeNameChar ch then
        let name := (ch :: rest).takeWhile Lexical.isAttributeNameChar
        have nonempty : 0 < name.length := by simp [name, named]
        ((readAttributeValue style depth (here.drop name.length)).andThen fun value _ =>
          (readTagBody style depth value.next.offset value.next).map (.cons
            { name := String.ofList name
              value := value.value
              span := ⟨here.offset, value.next.offset⟩ })).since (by simp; omega)
      else
        (readTagBody style depth attrsEnd here.advance).since (by simp; omega)
termination_by 4 * c.remaining
decreasing_by
  all_goals have := Cursor.remaining_of_rest h
  all_goals simp +zetaDelta only [Cursor.remaining_advance, Cursor.remaining_drop] at *
  all_goals omega

/--
Reads what follows the name of an attribute: `=` and a value, blanks around the `=` included, or
nothing.
-/
def readAttributeValue (style : TagSyntax) (depth : Nat) (c : Cursor) :
    ReadingFrom c (Option AttributeValue) :=
  let equals := c.skipWhile Ascii.isBlank
  have fromEquals : equals.remaining ≤ c.remaining := Cursor.remaining_skipWhile_le _ _
  if equals.rest.head? = some '=' then
    let here := equals.advance.skipWhile Ascii.isBlank
    have fromHere : here.remaining ≤ c.remaining :=
      Nat.le_trans (Cursor.remaining_skipWhile_le _ _) (by simp; omega)
    match h : here.rest with
    | [] => (ReadingFrom.found none 0).since fromHere
    | ch :: _ =>
        if ch = '"' || ch = '\'' then
          ⟨quotedValue ch here.advance,
            Nat.le_trans (remaining_quotedValue_le _ _) (by simp; omega)⟩
        else if ch = '{' && style = .code then
          let code := readCode true 0 (depth + 1) here.advance
          ⟨expressionValue here.advance code.val, Nat.le_trans code.property (by simp; omega)⟩
        else
          ⟨unquotedValue here, Nat.le_trans (remaining_unquotedValue_le _) fromHere⟩
  else
    .found none 0
termination_by 4 * c.remaining
decreasing_by
  all_goals have := Cursor.remaining_of_rest h
  all_goals simp +zetaDelta only [Cursor.remaining_advance] at *
  all_goals omega

end

end ComponentTags
