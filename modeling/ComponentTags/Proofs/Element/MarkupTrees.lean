import ComponentTags.Element.Markup
import ComponentTags.Proofs.Element.TagTexts

/-!
Trees of elements in markup: how they are written, the elements that they hold, and that reading finds
just these.
-/

namespace ComponentTags

/-- A value without quotes around it. -/
structure BareValue extends Run Lexical.isUnquotedChar where
  nonempty : chars ≠ []
  noSlash : chars.getLast? ≠ some '/'

inductive MarkupAttribute where
  | plain (attr : PlainAttribute)
  | bare (name : AttributeName) (value : BareValue)

/-- A comment that ends where it is to end. -/
structure CommentText where
  chars : List Char
  noEnd : ¬"-->".toList <:+: chars
  noClose : ¬['>'] <+: chars
  noDashClose : ¬['-', '>'] <+: chars

def TagName.lowered (name : TagName) : List Char :=
  name.chars.map Char.toLower

/-- An element of that name has no closing tag. -/
def TagName.IsVoid (name : TagName) : Prop :=
  String.ofList name.lowered ∈ voidElementNames

instance (name : TagName) : Decidable name.IsVoid :=
  inferInstanceAs (Decidable (String.ofList name.lowered ∈ voidElementNames))

/-- What stands in an element of that name is no markup. -/
def TagName.IsRaw (name : TagName) : Prop :=
  String.ofList name.lowered ∈ rawTextElementNames

instance (name : TagName) : Decidable name.IsRaw :=
  inferInstanceAs (Decidable (String.ofList name.lowered ∈ rawTextElementNames))

/-- The beginning of the closing tag that ends raw text, in lower case. -/
def TagName.rawEnd (name : TagName) : List Char :=
  '<' :: '/' :: name.lowered

structure RawContent (name : TagName) where
  chars : List Char
  noEnd : ¬name.rawEnd <:+: chars.map Char.toLower

/-- A part of markup: text, what hides tags, or an element with its content. -/
inductive MarkupNode where
  | text (text : Run isChildChar)
  | comment (text : CommentText)
  | interpolation (code : Run (· != '}'))
  | empty (name : TagName) (attributes : List MarkupAttribute)
  | void (name : TagName) (isVoid : name.IsVoid) (attributes : List MarkupAttribute)
  | raw (name : TagName) (isRaw : name.IsRaw) (attributes : List MarkupAttribute) (text : RawContent name)
  | full (name : TagName) (notVoid : ¬name.IsVoid) (notRaw : ¬name.IsRaw)
      (attributes : List MarkupAttribute) (children : List MarkupNode)

/-! ### Texts -/

namespace MarkupAttribute

def chars : MarkupAttribute → List Char
  | plain attr => attr.chars
  | bare name value => name.chars ++ '=' :: value.chars

def allChars (attributes : List MarkupAttribute) : List Char :=
  attributes.flatMap fun attr => ' ' :: attr.chars

end MarkupAttribute

/-- How an opening tag is written. -/
def TagName.openingChars (name : TagName) (attributes : List MarkupAttribute) (selfClosing : Bool) :
    List Char :=
  '<' :: (name.chars ++ (MarkupAttribute.allChars attributes ++ tagEnd selfClosing))

mutual

def MarkupNode.chars : MarkupNode → List Char
  | .text text => text.chars
  | .comment text => "<!--".toList ++ (text.chars ++ "-->".toList)
  | .interpolation code => '{' :: '{' :: (code.chars ++ ['}', '}'])
  | .empty name attributes => name.openingChars attributes true
  | .void name _ attributes => name.openingChars attributes false
  | .raw name _ attributes text =>
      name.openingChars attributes false ++ (text.chars ++ name.closingChars)
  | .full name _ _ attributes children =>
      name.openingChars attributes false ++ (forestChars children ++ name.closingChars)

def forestChars : List MarkupNode → List Char
  | [] => []
  | node :: nodes => node.chars ++ forestChars nodes

end

/-! ### Tags and elements -/

namespace MarkupAttribute

/-- The attribute that is written from an offset on. -/
def placed (start : Nat) : MarkupAttribute → Attribute
  | plain attr => attr.placed start
  | bare name value =>
      name.placed (some (.literal (String.ofList value.chars))) ('=' :: value.chars) start

def allPlaced (start : Nat) : List MarkupAttribute → List Attribute
  | [] => []
  | attr :: attributes =>
      attr.placed (start + 1) :: allPlaced (start + utf8Length (' ' :: attr.chars)) attributes

end MarkupAttribute

/-- The element whose opening tag is written from an offset on. -/
def TagName.opened (name : TagName) (attributes : List MarkupAttribute) (selfClosing : Bool)
    (depth start : Nat) (close : Option ClosingTag) : Element :=
  name.placed (MarkupAttribute.allChars attributes)
    (MarkupAttribute.allPlaced (start + 1 + utf8Length name.chars) attributes) selfClosing depth start
    close

/-- The closing tag that is written from an offset on. -/
def TagName.markupClosing (name : TagName) (start : Nat) : MarkupTag :=
  .closing (String.ofList name.chars) (name.placedClosing start)

mutual

/-- The tags of a tree that is written from an offset on. -/
def MarkupNode.tags (start : Nat) : MarkupNode → List MarkupTag
  | .text _ | .comment _ | .interpolation _ => []
  | .empty name attributes => [.opening (name.opened attributes true 0 start none)]
  | .void name _ attributes => [.opening (name.opened attributes false 0 start none)]
  | .raw name _ attributes text =>
      [.opening (name.opened attributes false 0 start none),
        name.markupClosing (start + utf8Length (name.openingChars attributes false ++ text.chars))]
  | .full name _ _ attributes children =>
      let content := start + utf8Length (name.openingChars attributes false)
      .opening (name.opened attributes false 0 start none)
        :: (forestTags content children
          ++ [name.markupClosing (content + utf8Length (forestChars children))])

def forestTags (start : Nat) : List MarkupNode → List MarkupTag
  | [] => []
  | node :: nodes => node.tags start ++ forestTags (start + utf8Length node.chars) nodes

end

mutual

/-- The elements of a tree that is written from an offset on, in the order of their opening tags. -/
def MarkupNode.elements (depth start : Nat) : MarkupNode → List Element
  | .text _ | .comment _ | .interpolation _ => []
  | .empty name attributes => [name.opened attributes true depth start none]
  | .void name _ attributes => [name.opened attributes false depth start none]
  | .raw name _ attributes text =>
      [name.opened attributes false depth start (some (name.placedClosing
        (start + utf8Length (name.openingChars attributes false ++ text.chars))))]
  | .full name _ _ attributes children =>
      let content := start + utf8Length (name.openingChars attributes false)
      name.opened attributes false depth start
          (some (name.placedClosing (content + utf8Length (forestChars children))))
        :: forestElements (depth + 1) content children

def forestElements (depth start : Nat) : List MarkupNode → List Element
  | [] => []
  | node :: nodes =>
      node.elements depth start ++ forestElements depth (start + utf8Length node.chars) nodes

end

/-! ### Attributes -/

section Attributes

variable {c : Cursor} {rest : List Char} {depth : Nat}

theorem unquotedValue_eq {value : BareValue} (h : c.rest = value.chars ++ rest)
    (hrest : EndsAttribute rest) :
    unquotedValue c =
      .found (some (.literal (String.ofList value.chars))) (c.past value.chars) := by
  have hslash := value.noSlash
  cases hrest with
  | @blank ch rest =>
      have hstops : StopsAt Lexical.isUnquotedChar (' ' :: ch :: rest) := stopsAt_cons (by decide)
      rw [unquotedValue, h, takeWhile_append_of_stopsAt value.all hstops,
        dropWhile_append_of_stopsAt value.all hstops]
      rfl
  | close rest =>
      have hstops : StopsAt Lexical.isUnquotedChar ('>' :: rest) := stopsAt_cons (by decide)
      rw [unquotedValue, h, takeWhile_append_of_stopsAt value.all hstops,
        dropWhile_append_of_stopsAt value.all hstops]
      simp [hslash, Cursor.past]
  | selfClose rest =>
      -- The slash is taken first and given back.
      have hall : ∀ ch ∈ value.chars ++ ['/'], Lexical.isUnquotedChar ch = true :=
        List.forall_mem_append.2 ⟨value.all, List.all_eq_true.1 rfl⟩
      have hstops : StopsAt Lexical.isUnquotedChar ('>' :: rest) := stopsAt_cons (by decide)
      have hsplit : value.chars ++ '/' :: '>' :: rest = value.chars ++ ['/'] ++ '>' :: rest := by simp
      rw [unquotedValue, h, hsplit, takeWhile_append_of_stopsAt hall hstops,
        dropWhile_append_of_stopsAt hall hstops]
      simp [Cursor.past]

theorem Reads.valueBare {value : BareValue} (h : c.rest = '=' :: value.chars ++ rest)
    (hrest : EndsAttribute rest) :
    Reads (.attributeValue .markup depth) c
      (.found (some (.literal (String.ofList value.chars))) (c.past ('=' :: value.chars))) := by
  obtain ⟨ch, chars, hchars⟩ := List.exists_cons_of_ne_nil value.nonempty
  have hch : Lexical.isUnquotedChar ch = true :=
    value.all ch (by rw [hchars]; exact List.mem_cons_self)
  simp only [Lexical.isUnquotedChar, Bool.and_eq_true, Bool.not_eq_true', bne_iff_ne] at hch
  have hopen : c.rest = '=' :: ch :: (chars ++ rest) := by rw [h, hchars]; rfl
  obtain ⟨hequals, hhere⟩ := skip_equals hopen hch.1.1.1
  have hvalue : (c.past ['=']).rest = value.chars ++ rest := Cursor.rest_past ['='] h
  have hread : Reads (.attributeValue .markup depth) c (unquotedValue (c.past ['='])) :=
    .valueUnquoted hequals hhere (Cursor.rest_past ['='] hopen) ⟨hch.1.2, hch.2⟩ (by simp)
  rw [unquotedValue_eq hvalue hrest] at hread
  exact hread

theorem MarkupAttribute.reads (attr : MarkupAttribute) (attrsEnd : Nat) {body : Reading TagBody}
    (h : c.rest = ' ' :: (attr.chars ++ rest)) (hrest : EndsAttribute rest)
    (hbody : Reads (.tagBody .markup depth (c.past (' ' :: attr.chars)).offset)
      (c.past (' ' :: attr.chars)) body) :
    Reads (.tagBody .markup depth attrsEnd) c
      { body with value := body.value.cons (attr.placed (c.offset + 1)) } := by
  cases attr with
  | plain attr => exact .plain h hrest hbody
  | bare name value =>
      have hname : c.rest = ' ' :: (name.chars ++ ('=' :: value.chars ++ rest)) := by
        rw [h, chars, List.append_assoc]
      exact .placed hname (stopsAt_cons (by decide))
        (.valueBare (Cursor.rest_past (' ' :: name.chars) hname) hrest) hbody

theorem MarkupAttribute.exists_cons (attr : MarkupAttribute) :
    ∃ ch chars, attr.chars = ch :: chars ∧ Ascii.isBlank ch = false ∧ ch ≠ '=' := by
  cases attr with
  | plain attr => exact attr.name.begins attr.valueChars
  | bare name value => exact name.begins ('=' :: value.chars)

theorem MarkupAttribute.endsAttribute (attributes : List MarkupAttribute) (selfClosing : Bool)
    (rest : List Char) : EndsAttribute (allChars attributes ++ (tagEnd selfClosing ++ rest)) := by
  cases attributes with
  | nil => exact .of_tagEnd selfClosing rest
  | cons attr attributes =>
      obtain ⟨ch, chars, hattr, hblank, hequals⟩ := attr.exists_cons
      rw [allChars, List.flatMap_cons, hattr]
      exact .blank hblank hequals

theorem MarkupAttribute.reads_all (attributes : List MarkupAttribute) (selfClosing : Bool)
    (h : c.rest = allChars attributes ++ (tagEnd selfClosing ++ rest)) :
    Reads (.tagBody .markup depth c.offset) c
      (.having
        { attributes := allPlaced c.offset attributes
          attrsEnd := c.offset + utf8Length (allChars attributes)
          selfClosing }
        [] (c.past (allChars attributes ++ tagEnd selfClosing))) := by
  induction attributes generalizing c with
  | nil => exact .ending h
  | cons attr attributes ih =>
      have hattr : c.rest = ' ' :: (attr.chars ++
          (allChars attributes ++ (tagEnd selfClosing ++ rest))) := by
        rw [h, allChars, List.flatMap_cons, List.cons_append, List.cons_append, List.append_assoc]
        rfl
      have hoffset : (c.past (' ' :: attr.chars)).offset =
          c.offset + utf8Length (' ' :: attr.chars) :=
        Cursor.offset_past (' ' :: attr.chars) hattr
      have hread := attr.reads c.offset hattr (endsAttribute attributes selfClosing rest)
        (ih (Cursor.rest_past (' ' :: attr.chars) hattr))
      have hall : allChars (attr :: attributes) = ' ' :: attr.chars ++ allChars attributes := rfl
      rw [hall, utf8Length_append, ← Nat.add_assoc, List.append_assoc, Cursor.past_append, allPlaced,
        ← hoffset]
      exact hread

/-- What is read of an opening tag, from behind its `<` on. -/
theorem readOpeningTag_eq {name : TagName} {attributes : List MarkupAttribute} {selfClosing : Bool}
    (h : c.rest = name.openingChars attributes selfClosing ++ rest) :
    (readOpeningTag .markup 0 c.offset c.advance).val =
      .having (name.opened attributes selfClosing 0 c.offset none) []
        (c.past (name.openingChars attributes selfClosing)) := by
  have hopen : c.advance.rest =
      name.chars ++ (MarkupAttribute.allChars attributes ++ (tagEnd selfClosing ++ rest)) := by
    refine Cursor.rest_past ['<'] ?_
    simp [h, TagName.openingChars]
  have hstart : c.advance.offset = c.offset + 1 := Cursor.offset_past ['<'] h
  have hname : (c.advance.past name.chars).offset = c.offset + 1 + utf8Length name.chars := by
    rw [Cursor.offset_past _ hopen, hstart]
  have hend : c.offset + 1 + utf8Length (name.chars ++ MarkupAttribute.allChars attributes) =
      (c.advance.past name.chars).offset + utf8Length (MarkupAttribute.allChars attributes) := by
    rw [hname, utf8Length_append, Nat.add_assoc (c.offset + 1)]
  change (Task.openingTag .markup 0 c.offset).read c.advance = _
  refine Reads.read_eq
    (.opening hstart hopen (MarkupAttribute.endsAttribute _ _ _).stopsAt_tagName ?_)
  rw [TagName.body, hend, ← hname]
  exact MarkupAttribute.reads_all attributes selfClosing (Cursor.rest_past _ hopen)

end Attributes

/-! ### Tags -/

section Tags

variable {c : Cursor} {text rest : List Char} {ch : Char} {name : TagName}

theorem markupTags_end (h : c.rest = []) : markupTags c = [] := by
  rw [markupTags]
  split <;> grind

theorem markupTags_text (h : c.rest = ch :: rest) (hch : isChildChar ch = true) :
    markupTags c = markupTags c.advance := by
  simp only [isChildChar, Bool.and_eq_true, bne_iff_ne] at hch
  rw [markupTags]
  split <;> grind

theorem markupTags_comment (h : c.rest = "<!--".toList ++ rest) :
    markupTags c = markupTags (c.drop (lengthPast "-->".toList c.rest)) := by
  rw [markupTags]
  split <;> simp_all

theorem markupTags_interpolation (h : c.rest = '{' :: '{' :: rest) :
    markupTags c = markupTags (c.drop (lengthPast ['}', '}'] c.rest)) := by
  rw [markupTags]
  split <;> simp_all

theorem markupTags_closing (h : c.rest = '<' :: '/' :: rest) :
    markupTags c = .closing (closingTag c).value.1 (closingTag c).value.2
      :: markupTags (closingTag c).next := by
  rw [markupTags]
  split <;> simp_all

theorem markupTags_opening (h : c.rest = '<' :: ch :: rest) (hch : Lexical.isNameStart ch = true) :
    markupTags c = .opening (readOpeningTag .markup 0 c.offset c.advance).val.value
      :: markupTags ((readOpeningTag .markup 0 c.offset c.advance).val.next.skipRawText
        (readOpeningTag .markup 0 c.offset c.advance).val.value) := by
  have hmark : ch ≠ '!' ∧ ch ≠ '?' ∧ ch ≠ '/' := by
    refine ⟨?_, ?_, ?_⟩ <;> rintro rfl <;> exact absurd hch (by decide)
  rw [markupTags]
  split <;> grind

theorem markupTags_pastText (htext : ∀ ch ∈ text, isChildChar ch = true) (h : c.rest = text ++ rest) :
    markupTags c = markupTags (c.past text) := by
  induction text generalizing c with
  | nil => rfl
  | cons ch text ih =>
      rw [markupTags_text h (htext ch List.mem_cons_self)]
      exact ih (fun other hother => htext other (List.mem_cons_of_mem _ hother))
        (Cursor.rest_past [ch] h)

/-- The first end of a comment is the one that is to end it. -/
theorem CommentText.not_isInfix (comment : CommentText) :
    ¬"-->".toList <:+: "<!--".toList ++ comment.chars := by
  have hend : ¬['-', '-', '>'] <:+: comment.chars := comment.noEnd
  have hclose := comment.noClose
  have hdash := comment.noDashClose
  simp [List.infix_cons_iff, hend, hclose, hdash]

theorem markupTags_pastComment {comment : CommentText}
    (h : c.rest = (MarkupNode.comment comment).chars ++ rest) :
    markupTags c = markupTags (c.past (MarkupNode.comment comment).chars) := by
  have hopen : c.rest = "<!--".toList ++ comment.chars ++ ("-->".toList ++ rest) := by
    simp [h, MarkupNode.chars]
  have hlength := lengthPast_append (by decide) (by decide) comment.not_isInfix rest
  rw [List.append_assoc] at hopen
  rw [markupTags_comment hopen, hopen, ← List.append_assoc, hlength, ← List.length_append,
    List.append_assoc]
  rfl

theorem markupTags_pastInterpolation {code : Run (· != '}')}
    (h : c.rest = (MarkupNode.interpolation code).chars ++ rest) :
    markupTags c = markupTags (c.past (MarkupNode.interpolation code).chars) := by
  have hopen : c.rest = '{' :: '{' :: code.chars ++ (['}', '}'] ++ rest) := by
    simp [h, MarkupNode.chars]
  have hmem : '}' ∉ '{' :: '{' :: code.chars := by
    simpa using fun hmem => absurd (code.all _ hmem) (by decide)
  have hlength := lengthPast_append_of_notMem hmem ['}'] rest
  rw [markupTags_interpolation (by rw [hopen]; rfl), hopen, hlength, ← List.length_append]
  rfl

/-! #### Elements -/

variable {attributes : List MarkupAttribute} {selfClosing : Bool}

theorem markupTags_pastOpening (h : c.rest = name.openingChars attributes selfClosing ++ rest) :
    markupTags c = .opening (name.opened attributes selfClosing 0 c.offset none)
      :: markupTags ((c.past (name.openingChars attributes selfClosing)).skipRawText
        (name.opened attributes selfClosing 0 c.offset none)) := by
  have hread := readOpeningTag_eq h
  rw [markupTags_opening h name.isStart, hread]
  rfl

theorem markupTags_pastClosing (h : c.rest = name.closingChars ++ rest) :
    markupTags c = name.markupClosing c.offset :: markupTags (c.past name.closingChars) := by
  rw [markupTags_closing h, closingTag_eq h]
  rfl

theorem TagName.lower_eq (name : TagName) :
    Ascii.lower (String.ofList name.chars) = String.ofList name.lowered := by
  apply String.toList_inj.1
  simp [Ascii.lower, TagName.lowered]

theorem isEmpty_opened_iff (depth start : Nat) (close : Option ClosingTag) :
    (name.opened attributes selfClosing depth start close).isEmpty = true ↔
      selfClosing = true ∨ name.IsVoid := by
  rw [Element.isEmpty, Bool.or_eq_true, List.contains_iff_mem, TagName.opened, TagName.placed,
    name.lower_eq]
  rfl

theorem skipRawText_of_isEmpty {element : Element} (h : element.isEmpty = true) :
    c.skipRawText element = c := by
  simp [Cursor.skipRawText, h]

theorem skipRawText_of_not_isRaw (h : ¬name.IsRaw) (depth start : Nat) :
    c.skipRawText (name.opened attributes selfClosing depth start none) = c := by
  refine if_neg fun hskips => h ?_
  obtain ⟨-, hraw⟩ := Bool.and_eq_true_iff.1 hskips
  rw [List.contains_iff_mem, TagName.opened, TagName.placed, name.lower_eq] at hraw
  exact hraw

theorem TagName.IsRaw.not_isVoid (h : name.IsRaw) : ¬name.IsVoid := by
  have hnames : ∀ lowered ∈ rawTextElementNames, lowered ∉ voidElementNames := by decide
  exact hnames _ h

theorem lengthBefore_append {pattern : List Char} (hne : pattern ≠ []) (hpattern : Unbordered pattern)
    (htext : ¬pattern <:+: text) (rest : List Char) :
    lengthBefore pattern (text ++ (pattern ++ rest)) = text.length := by
  induction text with
  | nil =>
      obtain ⟨ch, others, heq, hprefix⟩ := exists_cons_of_append hne rest
      rw [List.nil_append, heq, lengthBefore, if_pos hprefix]
      rfl
  | cons ch text ih =>
      have hno := not_isPrefix_append hpattern htext (List.cons_ne_nil ch text) rest
      rw [List.cons_append] at hno ⊢
      rw [lengthBefore, isPrefixOf_eq_false hno, if_neg Bool.false_ne_true,
        ih (not_isInfix_tail htext), List.length_cons]

theorem eq_less_of_toLower_eq (h : ch.toLower = '<') : ch = '<' := by
  unfold Char.toLower at h
  split at h
  · next hupper =>
      have hval : (ch.val + 32).toNat = 60 := congrArg (UInt32.toNat ∘ Char.val) h
      have hlow : 65 ≤ ch.val.toNat := UInt32.le_iff_toNat_le.1 hupper.1
      have hhigh : ch.val.toNat ≤ 90 := UInt32.le_iff_toNat_le.1 hupper.2
      have hadd : (32 : UInt32).toNat = 32 := rfl
      rw [UInt32.toNat_add] at hval
      omega
  · exact h

theorem TagName.unbordered_rawEnd (name : TagName) : Unbordered name.rawEnd := by
  refine unbordered_cons fun hmem => ?_
  rcases List.mem_cons.1 hmem with heq | hmem
  · exact absurd heq (by decide)
  · obtain ⟨ch, hch, hlower⟩ := List.mem_map.1 hmem
    obtain rfl := eq_less_of_toLower_eq hlower
    exact absurd (name.isNameChar _ hch) (by decide)

/-- Raw text ends before the closing tag. -/
theorem skipRawText_of_isRaw (h : name.IsRaw) {raw : RawContent name}
    (hrest : c.rest = raw.chars ++ (name.closingChars ++ rest)) (depth start : Nat) :
    c.skipRawText (name.opened attributes false depth start none) = c.past raw.chars := by
  have hempty : ¬(name.opened attributes false depth start none).isEmpty = true := by
    rw [isEmpty_opened_iff]
    simpa using h.not_isVoid
  have hraw : rawTextElementNames.contains (Ascii.lower (String.ofList name.chars)) = true := by
    rw [List.contains_iff_mem, name.lower_eq]
    exact h
  have hmap : c.rest.map Char.toLower =
      raw.chars.map Char.toLower ++ (name.rawEnd ++ ('>' :: rest.map Char.toLower)) := by
    simp [hrest, TagName.closingChars, TagName.rawEnd, TagName.lowered]
  have hlength : rawTextLength (String.ofList name.chars) c.rest = raw.chars.length := by
    rw [rawTextLength, name.lower_eq, String.toList_ofList, hmap]
    exact (lengthBefore_append (List.cons_ne_nil _ _) name.unbordered_rawEnd raw.noEnd _).trans
      (List.length_map ..)
  have hskips : (!(name.opened attributes false depth start none).isEmpty &&
      rawTextElementNames.contains
        (Ascii.lower (name.opened attributes false depth start none).name)) = true :=
    Bool.and_eq_true_iff.2 ⟨by simpa using hempty, hraw⟩
  rw [Cursor.skipRawText, if_pos hskips, Cursor.past, ← hlength]
  rfl

mutual

/-- **The tags of a tree are found, and what follows is read on from behind it.** -/
theorem markupTags_node (node : MarkupNode) {c : Cursor} {rest : List Char}
    (h : c.rest = node.chars ++ rest) :
    markupTags c = node.tags c.offset ++ markupTags (c.past node.chars) := by
  match node with
  | .text text => exact markupTags_pastText text.all h
  | .comment text => exact markupTags_pastComment h
  | .interpolation code => exact markupTags_pastInterpolation h
  | .empty name attributes =>
      rw [markupTags_pastOpening h, skipRawText_of_isEmpty ((isEmpty_opened_iff ..).2 (.inl rfl))]
      rfl
  | .void name isVoid attributes =>
      rw [markupTags_pastOpening h, skipRawText_of_isEmpty ((isEmpty_opened_iff ..).2 (.inr isVoid))]
      rfl
  | .raw name isRaw attributes text =>
      have hopening : c.rest = name.openingChars attributes false ++
          (text.chars ++ (name.closingChars ++ rest)) := by
        rw [h, MarkupNode.chars, List.append_assoc, List.append_assoc]
      let opening := MarkupTag.opening (name.opened attributes false 0 c.offset none)
      let content := c.past (name.openingChars attributes false)
      let closing := content.past text.chars
      have hraw : content.rest = text.chars ++ (name.closingChars ++ rest) :=
        Cursor.rest_past _ hopening
      calc markupTags c
          = opening :: markupTags closing := by
            rw [markupTags_pastOpening hopening, skipRawText_of_isRaw isRaw hraw]
        _ = opening :: name.markupClosing closing.offset
              :: markupTags (closing.past name.closingChars) := by
            rw [markupTags_pastClosing (Cursor.rest_past _ hraw)]
        _ = (MarkupNode.raw name isRaw attributes text).tags c.offset
              ++ markupTags (c.past (MarkupNode.raw name isRaw attributes text).chars) := by
            rw [MarkupNode.tags, utf8Length_append, ← Nat.add_assoc, ← Cursor.offset_past _ hopening,
              ← Cursor.offset_past _ hraw, MarkupNode.chars, Cursor.past_append, Cursor.past_append]
            rfl
  | .full name notVoid notRaw attributes children =>
      have hopening : c.rest = name.openingChars attributes false ++
          (forestChars children ++ (name.closingChars ++ rest)) := by
        rw [h, MarkupNode.chars, List.append_assoc, List.append_assoc]
      let opening := MarkupTag.opening (name.opened attributes false 0 c.offset none)
      let content := c.past (name.openingChars attributes false)
      let closing := content.past (forestChars children)
      have hchildren : content.rest = forestChars children ++ (name.closingChars ++ rest) :=
        Cursor.rest_past _ hopening
      calc markupTags c
          = opening :: markupTags content := by
            rw [markupTags_pastOpening hopening, skipRawText_of_not_isRaw notRaw]
        _ = opening :: (forestTags content.offset children ++ markupTags closing) := by
            rw [markupTags_forest children hchildren]
        _ = opening :: (forestTags content.offset children ++ name.markupClosing closing.offset
              :: markupTags (closing.past name.closingChars)) := by
            rw [markupTags_pastClosing (Cursor.rest_past _ hchildren)]
        _ = (MarkupNode.full name notVoid notRaw attributes children).tags c.offset ++ markupTags
              (c.past (MarkupNode.full name notVoid notRaw attributes children).chars) := by
            rw [MarkupNode.tags, ← Cursor.offset_past _ hopening, ← Cursor.offset_past _ hchildren,
              List.cons_append, List.append_assoc, MarkupNode.chars, Cursor.past_append,
              Cursor.past_append]
            rfl

theorem markupTags_forest (nodes : List MarkupNode) {c : Cursor} {rest : List Char}
    (h : c.rest = forestChars nodes ++ rest) :
    markupTags c = forestTags c.offset nodes ++ markupTags (c.past (forestChars nodes)) := by
  match nodes with
  | [] => rfl
  | node :: nodes =>
      have hnode : c.rest = node.chars ++ (forestChars nodes ++ rest) := by
        rw [h, forestChars, List.append_assoc]
      rw [markupTags_node node hnode, markupTags_forest nodes (Cursor.rest_past _ hnode), forestChars,
        Cursor.past_append, forestTags, Cursor.offset_past _ hnode, List.append_assoc]

end

end Tags

/-! ### Pairing -/

section Pairing

variable {state : OpenElements} {name : TagName} {attributes : List MarkupAttribute}
  {selfClosing : Bool} {start : Nat}

/-- A state with more elements and the same open ones. -/
def OpenElements.extended (state : OpenElements) (elements : List Element) : OpenElements :=
  { state with elements := state.elements ++ elements.toArray }

theorem extended_append (elements more : List Element) :
    state.extended (elements ++ more) = (state.extended elements).extended more := by
  simp [OpenElements.extended]

theorem opened_of_isEmpty (h : selfClosing = true ∨ name.IsVoid) :
    state.opened (name.opened attributes selfClosing 0 start none) =
      state.extended [name.opened attributes selfClosing state.openNames.length start none] := by
  rw [OpenElements.opened, if_pos ((isEmpty_opened_iff ..).2 h)]
  rfl

theorem openNames_opened (h : ¬name.IsVoid) :
    (state.opened (name.opened attributes false 0 start none)).openNames =
      (state.elements.size, String.ofList name.chars) :: state.openNames :=
  if_neg fun hempty => h (((isEmpty_opened_iff ..).1 hempty).resolve_left Bool.false_ne_true)

theorem modify_push (front : Array Element) (element : Element) (after : List Element)
    (f : Element → Element) :
    (front.push element ++ after.toArray).modify front.size f =
      front ++ (f element :: after).toArray := by
  obtain ⟨front⟩ := front
  simp [List.modify_eq_take_cons_drop]

/-- An element with its content inside goes behind those before it, and is open no more. -/
theorem closed_extended (h : ¬name.IsVoid) (elements : List Element) (tag : ClosingTag) :
    ((state.opened (name.opened attributes false 0 start none)).extended elements).closed
        (String.ofList name.chars) tag =
      state.extended
        (name.opened attributes false state.openNames.length start (some tag) :: elements) := by
  have htop : (state.opened (name.opened attributes false 0 start none)).openNames.dropWhile
      (·.2 != String.ofList name.chars) =
        (state.elements.size, String.ofList name.chars) :: state.openNames := by
    rw [openNames_opened h]
    simp
  rw [OpenElements.closed]
  simp only [OpenElements.extended, htop]
  congr 1
  exact modify_push ..

mutual

/-- **The tags of a tree add its elements and leave open what was open.** -/
theorem foldl_step_node (node : MarkupNode) (state : OpenElements) (start : Nat) :
    (node.tags start).foldl OpenElements.step state =
      state.extended (node.elements state.openNames.length start) := by
  match node with
  | .text _ | .comment _ | .interpolation _ =>
      simp [MarkupNode.tags, MarkupNode.elements, OpenElements.extended]
  | .empty name attributes => exact opened_of_isEmpty (.inl rfl)
  | .void name isVoid attributes => exact opened_of_isEmpty (.inr isVoid)
  | .raw name isRaw attributes text => exact closed_extended isRaw.not_isVoid [] _
  | .full name notVoid notRaw attributes children =>
      have hchildren := foldl_step_forest children
        (state.opened (name.opened attributes false 0 start none))
        (start + utf8Length (name.openingChars attributes false))
      have hdepth : (state.opened (name.opened attributes false 0 start none)).openNames.length =
          state.openNames.length + 1 := by
        rw [openNames_opened notVoid, List.length_cons]
      rw [MarkupNode.tags, List.foldl_cons, List.foldl_append, OpenElements.step, hchildren, hdepth]
      exact closed_extended notVoid _ _

theorem foldl_step_forest (nodes : List MarkupNode) (state : OpenElements) (start : Nat) :
    (forestTags start nodes).foldl OpenElements.step state =
      state.extended (forestElements state.openNames.length start nodes) := by
  match nodes with
  | [] => simp [forestTags, forestElements, OpenElements.extended]
  | node :: nodes =>
      rw [forestTags, List.foldl_append, foldl_step_node node, foldl_step_forest nodes,
        forestElements, extended_append]
      rfl

end

end Pairing

theorem ofMarkup_of_forest {source : String} {forest : List MarkupNode}
    (h : source.toList = forestChars forest) : Element.ofMarkup source = forestElements 0 0 forest := by
  have hstart : (Cursor.start source.toList).rest = forestChars forest ++ [] := by
    rw [List.append_nil, ← h]
    rfl
  have hend := markupTags_end (Cursor.rest_past _ hstart)
  rw [Element.ofMarkup, markupTags_forest forest hstart, hend, List.append_nil, foldl_step_forest]
  simp [OpenElements.extended, Cursor.start]

/-- **What is found in markup are the elements that are written there.** -/
theorem Element.ofMarkup_forest (forest : List MarkupNode) :
    Element.ofMarkup (String.ofList (forestChars forest)) = forestElements 0 0 forest :=
  ofMarkup_of_forest String.toList_ofList

example :
    forestChars [.full ⟨'p', by decide, ⟨[], nofun⟩⟩ (by decide) (by decide)
      [.bare ⟨⟨['a'], List.all_eq_true.1 rfl⟩, by decide⟩
        ⟨⟨['b', '/', 'c'], List.all_eq_true.1 rfl⟩, by decide, by decide⟩]
      [.text ⟨['>'], List.all_eq_true.1 rfl⟩,
        .void ⟨'b', by decide, ⟨['r'], List.all_eq_true.1 rfl⟩⟩ (by decide) []]] =
        "<p a=b/c>><br></p>".toList :=
  rfl

end ComponentTags
