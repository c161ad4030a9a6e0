import ComponentTags.Element.Code
import ComponentTags.Proofs.Element.Nesting
import ComponentTags.Proofs.Source.Passages

/-!
How tags stand in their text. The offsets of an element lie between characters, in the order in which
the parts of a tag are written, and cover what they are said to cover; and the closing tags of a text
pair up like brackets. All of it holds of every text, however tags and code are broken off.
-/

namespace ComponentTags

/-- An offset of a text between two of its characters, or at one of its ends. -/
def IsBoundary (source : List Char) (offset : Nat) : Prop :=
  ∃ front rest, source = front ++ rest ∧ offset = utf8Length front

/-- The span of a text that has just those characters. -/
def Covers (source : List Char) (span : Span) (text : List Char) : Prop :=
  ∃ front rest, source = front ++ (text ++ rest) ∧ span.start = utf8Length front ∧
    span.stop = utf8Length front + utf8Length text

/-- One span lies in another one. -/
def Span.IsInside (inner outer : Span) : Prop :=
  outer.start ≤ inner.start ∧ inner.stop ≤ outer.stop

/-- Attributes that stand one behind the other between two offsets. -/
structure AttributesStand (source : List Char) (first last : Nat) (attributes : List Attribute) :
    Prop where
  le : first ≤ last
  covers : ∀ attr ∈ attributes, ∃ text, Covers source attr.span text
  inside : ∀ attr ∈ attributes, first ≤ attr.span.start ∧ attr.span.stop ≤ last
  inOrder : attributes.Pairwise fun before after => before.span.stop ≤ after.span.start

/-- An element whose opening tag stands in the text where the element says. -/
structure Element.Stands (source : List Char) (element : Element) : Prop where
  opens : Covers source ⟨element.span.start, element.span.start + 1⟩ ['<']
  nameStart : element.nameSpan.start = element.span.start + 1
  named : Covers source element.nameSpan element.name.toList
  attributes : AttributesStand source element.nameSpan.stop element.attrsEnd element.attributes
  attrsEnd : IsBoundary source element.attrsEnd
  attrsEnd_le : element.attrsEnd ≤ element.span.stop
  stop : IsBoundary source element.span.stop

/-- A closing tag of that name that stands in the text. -/
structure ClosingTag.Stands (source : List Char) (name : String) (tag : ClosingTag) : Prop where
  opens : Covers source ⟨tag.span.start, tag.span.start + 2⟩ ['<', '/']
  named : Covers source tag.nameSpan name.toList
  nameStart : tag.span.start + 2 ≤ tag.nameSpan.start
  nameStop : tag.nameSpan.stop ≤ tag.span.stop
  stop : IsBoundary source tag.span.stop

/-- The closing tag of an element stands behind its opening tag, which does not close itself. -/
structure Element.IsClosedBy (source : List Char) (element : Element) (tag : ClosingTag) : Prop where
  stands : ∃ name, tag.Stands source name
  behind : element.span.stop ≤ tag.span.start
  isOpen : element.selfClosing = false

def Span.offsets (span : Span) : List Nat :=
  [span.start, span.stop]

/-- All offsets that an element has. -/
def Element.offsets (element : Element) : List Nat :=
  element.attrsEnd :: element.span.offsets ++ element.nameSpan.offsets
    ++ element.attributes.flatMap (·.span.offsets)
    ++ element.close.toList.flatMap fun tag => tag.span.offsets ++ tag.nameSpan.offsets

/-- All of a closed element, from its opening tag to the end of its closing tag. -/
def Element.extent? (element : Element) : Option Span :=
  element.close.map fun tag => ⟨element.span.start, tag.span.stop⟩

/-- Two elements, the later one of which stands behind the closing tag of the first or before it. -/
structure Element.Precedes (first second : Element) : Prop where
  start_lt : first.span.start < second.span.start
  closing : ∀ tag ∈ first.close, ∀ tag' ∈ second.close,
    tag.span.stop ≤ second.span.start ∨ tag'.span.stop ≤ tag.span.start

/-- Elements in the order of their opening tags, with closing tags that pair up like brackets. -/
structure TagStructure (source : List Char) (elements : List Element) : Prop where
  stands : ∀ element ∈ elements, element.Stands source
  closed : ∀ element ∈ elements, ∀ tag ∈ element.close, element.IsClosedBy source tag
  boundaries : ∀ element ∈ elements, ∀ offset ∈ element.offsets, IsBoundary source offset
  inText : ∀ element ∈ elements, element.span.stop ≤ utf8Length source
  inOrder : elements.Pairwise fun first second => first.span.start < second.span.start
  apart : elements.Pairwise fun first second =>
    ∀ tag ∈ first.close, ∀ tag' ∈ second.close, tag.span.Apart tag'.span
  nested : elements.Pairwise fun first second =>
    ∀ outer ∈ first.extent?, ∀ inner ∈ second.extent?, outer.Apart inner ∨ inner.IsInside outer

/-- Elements that were found between two offsets. -/
structure ElementsStand (source : List Char) (first last : Nat) (elements : List Element) : Prop where
  le : first ≤ last
  stands : ∀ element ∈ elements, element.Stands source
  closed : ∀ element ∈ elements, ∀ tag ∈ element.close, element.IsClosedBy source tag
  behind : ∀ element ∈ elements, first ≤ element.span.start
  isOver : ∀ element ∈ elements, element.IsOver last
  precedes : elements.Pairwise Element.Precedes

section Structure

variable {source text rest : List Char} {c d : Cursor} {span : Span} {offset first middle last : Nat}
  {element : Element} {elements others : List Element} {attributes : List Attribute}
  {tag : ClosingTag}

/-! ### Offsets and spans -/

theorem IsBoundary.le (h : IsBoundary source offset) : offset ≤ utf8Length source := by
  obtain ⟨front, rest, rfl, rfl⟩ := h
  rw [utf8Length_append]
  omega

theorem Covers.isBoundary (h : Covers source span text) :
    IsBoundary source span.start ∧ IsBoundary source span.stop := by
  obtain ⟨front, rest, hsource, hstart, hstop⟩ := h
  refine ⟨⟨front, text ++ rest, hsource, hstart⟩, ⟨front ++ text, rest, ?_, ?_⟩⟩
  · rw [hsource, List.append_assoc]
  · rw [hstop, utf8Length_append]

theorem Covers.start_le_stop (h : Covers source span text) : span.start ≤ span.stop := by
  obtain ⟨front, rest, -, hstart, hstop⟩ := h
  omega

theorem Cursor.IsIn.isBoundary (h : c.IsIn source) : IsBoundary source c.offset :=
  ⟨c.before.reverse, c.rest, h.text, by rw [utf8Length_reverse, h.offset]⟩

theorem Cursor.IsIn.covers (h : c.IsIn source) (hrest : c.rest = text ++ rest) :
    Covers source ⟨c.offset, c.offset + utf8Length text⟩ text := by
  refine ⟨c.before.reverse, rest, ?_, ?_, ?_⟩
  · rw [← hrest]
    exact h.text
  · rw [utf8Length_reverse, h.offset]
  · rw [utf8Length_reverse, h.offset]

/-- Two cursors of one text have some of it between them. -/
theorem Cursor.IsIn.exists_covers (h : c.IsIn source) (h' : d.IsIn source)
    (hle : c.offset ≤ d.offset) : ∃ text, Covers source ⟨c.offset, d.offset⟩ text := by
  have hfront : c.offset = utf8Length c.before.reverse := by rw [utf8Length_reverse, h.offset]
  have hfront' : d.offset = utf8Length d.before.reverse := by rw [utf8Length_reverse, h'.offset]
  rw [hfront, hfront'] at hle
  obtain ⟨between, hbetween, hrest⟩ := exists_between (h.text.symm.trans h'.text) hle
  refine ⟨between, c.before.reverse, d.rest, ?_, hfront, ?_⟩
  · rw [← hrest]
    exact h.text
  · rw [← utf8Length_append, ← hbetween]
    exact hfront'

/-- The name that starts at a cursor. -/
theorem Cursor.IsIn.covers_name (h : c.IsIn source) :
    Covers source ⟨c.offset, (c.drop (c.rest.takeWhile Lexical.isNameChar).length).offset⟩
      (String.ofList (c.rest.takeWhile Lexical.isNameChar)).toList := by
  have hsplit : c.rest = c.rest.takeWhile Lexical.isNameChar ++ c.rest.dropWhile Lexical.isNameChar :=
    List.takeWhile_append_dropWhile.symm
  have hoffset := Cursor.offset_past _ hsplit
  rw [Cursor.past] at hoffset
  rw [String.toList_ofList, hoffset]
  exact h.covers hsplit

theorem Element.Stands.start_lt (h : element.Stands source) : element.span.start < element.span.stop := by
  have hstart := h.nameStart
  have hname := h.named.start_le_stop
  have hattrs := h.attributes.le
  have hstop := h.attrsEnd_le
  omega

theorem ClosingTag.Stands.start_lt {name : String} (h : tag.Stands source name) :
    tag.span.start < tag.span.stop := by
  have hstart := h.nameStart
  have hname := h.named.start_le_stop
  have hstop := h.nameStop
  omega

/-! ### Attributes -/

theorem AttributesStand.nil (h : first ≤ last) : AttributesStand source first last [] :=
  ⟨h, nofun, nofun, .nil⟩

theorem AttributesStand.since (h : AttributesStand source middle last attributes)
    (hle : first ≤ middle) : AttributesStand source first last attributes where
  le := Nat.le_trans hle h.le
  covers := h.covers
  inside attr hattr := ⟨Nat.le_trans hle (h.inside attr hattr).1, (h.inside attr hattr).2⟩
  inOrder := h.inOrder

theorem AttributesStand.cons {attr : Attribute} (hcovers : Covers source attr.span text)
    (hfirst : first ≤ attr.span.start) (h : AttributesStand source attr.span.stop last attributes) :
    AttributesStand source first last (attr :: attributes) where
  le := Nat.le_trans hfirst (Nat.le_trans hcovers.start_le_stop h.le)
  covers := List.forall_mem_cons.2 ⟨⟨text, hcovers⟩, h.covers⟩
  inside := List.forall_mem_cons.2 ⟨⟨hfirst, h.le⟩, fun other hother =>
    ⟨Nat.le_trans hfirst (Nat.le_trans hcovers.start_le_stop (h.inside other hother).1),
      (h.inside other hother).2⟩⟩
  inOrder := .cons (fun other hother => (h.inside other hother).1) h.inOrder

/-! ### Elements -/

theorem Element.IsOver.widen (h : element.IsOver first) (hle : first ≤ last) : element.IsOver last where
  opening := Nat.le_trans h.opening hle
  closing other hother := Nat.le_trans (h.closing other hother) hle

theorem ElementsStand.nil (h : first ≤ last) : ElementsStand source first last [] :=
  ⟨h, nofun, nofun, nofun, nofun, .nil⟩

theorem ElementsStand.since (h : ElementsStand source middle last elements) (hle : first ≤ middle) :
    ElementsStand source first last elements :=
  { h with
    le := Nat.le_trans hle h.le
    behind := fun element hmem => Nat.le_trans hle (h.behind element hmem) }

/-- What is found later stands behind what was found before. -/
theorem ElementsStand.append (h : ElementsStand source first middle elements)
    (h' : ElementsStand source middle last others) :
    ElementsStand source first last (elements ++ others) where
  le := Nat.le_trans h.le h'.le
  stands := List.forall_mem_append.2 ⟨h.stands, h'.stands⟩
  closed := List.forall_mem_append.2 ⟨h.closed, h'.closed⟩
  behind := List.forall_mem_append.2 ⟨h.behind, fun other hother =>
    Nat.le_trans h.le (h'.behind other hother)⟩
  isOver := List.forall_mem_append.2 ⟨fun other hother => (h.isOver other hother).widen h'.le, h'.isOver⟩
  precedes := by
    refine List.pairwise_append.2 ⟨h.precedes, h'.precedes, fun element hmem other hother => ?_⟩
    have hover := h.isOver element hmem
    have hbehind := h'.behind other hother
    have hstart := (h.stands element hmem).start_lt
    have hstop := hover.opening
    refine ⟨by omega, fun tag htag _ _ => .inl ?_⟩
    exact Nat.le_trans (hover.closing tag htag) hbehind

/-- The element around others: they are inside its opening tag or before its closing tag. -/
theorem ElementsStand.enclosed (hstands : element.Stands source)
    (hclosed : ∀ tag ∈ element.close, element.IsClosedBy source tag ∧ middle ≤ tag.span.start)
    (hover : element.IsOver last) (hmiddle : middle ≤ last)
    (h : ElementsStand source (element.span.start + 1) middle elements) :
    ElementsStand source element.span.start last (element :: elements) where
  le := Nat.le_trans (Nat.le_of_lt hstands.start_lt) hover.opening
  stands := List.forall_mem_cons.2 ⟨hstands, h.stands⟩
  closed := List.forall_mem_cons.2 ⟨fun tag htag => (hclosed tag htag).1, h.closed⟩
  behind := List.forall_mem_cons.2 ⟨Nat.le_refl _, fun other hother =>
    Nat.le_of_lt (h.behind other hother)⟩
  isOver := List.forall_mem_cons.2 ⟨hover, fun other hother => (h.isOver other hother).widen hmiddle⟩
  precedes := by
    refine .cons (fun other hother => ⟨h.behind other hother, ?_⟩) h.precedes
    intro tag htag tag' htag'
    exact .inr (Nat.le_trans ((h.isOver other hother).closing tag' htag') (hclosed tag htag).2)

theorem Span.isBoundary_offsets (hstart : IsBoundary source span.start)
    (hstop : IsBoundary source span.stop) : ∀ offset ∈ span.offsets, IsBoundary source offset :=
  List.forall_mem_cons.2 ⟨hstart, List.forall_mem_singleton.2 hstop⟩

theorem Covers.isBoundary_offsets (h : Covers source span text) :
    ∀ offset ∈ span.offsets, IsBoundary source offset :=
  Span.isBoundary_offsets h.isBoundary.1 h.isBoundary.2

theorem Element.Stands.isBoundary (h : element.Stands source)
    (hclosed : ∀ tag ∈ element.close, element.IsClosedBy source tag) :
    ∀ offset ∈ element.offsets, IsBoundary source offset := by
  simp only [Element.offsets, List.forall_mem_append, List.forall_mem_cons, List.mem_flatMap]
  have hstart : IsBoundary source element.span.start := h.opens.isBoundary.1
  refine ⟨⟨⟨⟨h.attrsEnd, Span.isBoundary_offsets hstart h.stop⟩,
    h.named.isBoundary_offsets⟩, ?_⟩, ?_⟩
  · rintro offset ⟨attr, hattr, hoffset⟩
    obtain ⟨text, hcovers⟩ := h.attributes.covers attr hattr
    exact hcovers.isBoundary_offsets offset hoffset
  · rintro offset ⟨tag, htag, hoffset⟩
    obtain ⟨name, hname⟩ := (hclosed tag (Option.mem_toList.1 htag)).stands
    have hstart : IsBoundary source tag.span.start := hname.opens.isBoundary.1
    rcases List.mem_append.1 hoffset with hoffset | hoffset
    · exact Span.isBoundary_offsets hstart hname.stop offset hoffset
    · exact hname.named.isBoundary_offsets offset hoffset

/-- Elements of which each precedes the later ones have the structure of brackets. -/
theorem TagStructure.of_precedes (hstands : ∀ element ∈ elements, element.Stands source)
    (hclosed : ∀ element ∈ elements, ∀ tag ∈ element.close, element.IsClosedBy source tag)
    (h : elements.Pairwise Element.Precedes) : TagStructure source elements where
  stands := hstands
  closed := hclosed
  boundaries element hmem := (hstands element hmem).isBoundary (hclosed element hmem)
  inText element hmem := (hstands element hmem).stop.le
  inOrder := h.imp Element.Precedes.start_lt
  apart := by
    refine h.imp_of_mem fun {element later} _ hlater hprecedes tag htag tag' htag' => ?_
    have hbehind := (hclosed later hlater tag' htag').behind
    have hstart := (hstands later hlater).start_lt
    rcases hprecedes.closing tag htag tag' htag' with hle | hle
    · exact .inl (by omega)
    · exact .inr hle
  nested := by
    refine h.imp_of_mem fun {element later} hmem _ hprecedes outer houter inner hinner => ?_
    obtain ⟨tag, htag, rfl⟩ := Option.map_eq_some_iff.1 houter
    obtain ⟨tag', htag', rfl⟩ := Option.map_eq_some_iff.1 hinner
    obtain ⟨name, hname⟩ := (hclosed element hmem tag htag).stands
    have hlt := hname.start_lt
    rcases hprecedes.closing tag htag tag' htag' with hle | hle
    · exact .inl (.inl hle)
    · exact .inr ⟨Nat.le_of_lt hprecedes.start_lt, Nat.le_trans hle (Nat.le_of_lt hlt)⟩

/-! ### Closing tags -/

theorem stands_closingTag (h : c.IsIn source) (hrest : c.rest = '<' :: '/' :: rest) :
    (closingTag c).value.2.Stands source (closingTag c).value.1 ∧
      (closingTag c).value.2.span = ⟨c.offset, (closingTag c).next.offset⟩ ∧
      (closingTag c).next.IsIn source := by
  have hname := (h.drop 2).skipWhile Ascii.isBlank
  have hopens : (c.drop 2).offset = c.offset + 2 := Cursor.offset_past ['<', '/'] hrest
  have hmark : Covers source ⟨c.offset, c.offset + utf8Length ['<', '/']⟩ ['<', '/'] :=
    h.covers hrest
  refine ⟨⟨hmark, hname.covers_name, ?_, ?_, ?_⟩, rfl, ?_⟩
  · exact hopens ▸ Cursor.offset_le_skipWhile _ _
  · exact Cursor.offset_le_drop _ _
  · exact ((hname.drop _).drop _).isBoundary
  · exact (hname.drop _).drop _

/-! ### Readings -/

/-- The `<` at that offset is the last character before the cursor. -/
structure IsBehindLess (source : List Char) (start : Nat) (c : Cursor) : Prop where
  covers : Covers source ⟨start, start + 1⟩ ['<']
  offset : c.offset = start + 1

/-- Elements that were found among the children of one, up to its closing tag if there is one. -/
def ChildrenStand (source : List Char) (first last : Nat) (elements : List Element) :
    Option ClosingTag → Prop
  | none => ElementsStand source first last elements
  | some tag => ElementsStand source first tag.span.start elements ∧
      (∃ name, tag.Stands source name) ∧ tag.span.stop = last

/-- What a reading of the task from a cursor on finds. -/
def Task.Finds (source : List Char) : {α : Type} → Task α → Cursor → Reading α → Prop
  | _, .children _, c, reading =>
      ChildrenStand source c.offset reading.next.offset reading.elements reading.value
  | _, .openingTag _ _ start, c, reading =>
      IsBehindLess source start c → reading.value.Stands source ∧ reading.value.close = none ∧
        reading.value.span = ⟨start, reading.next.offset⟩ ∧
        ElementsStand source (start + 1) reading.next.offset reading.elements
  | _, .tagBody _ _ attrsEnd, c, reading =>
      attrsEnd ≤ c.offset → IsBoundary source attrsEnd →
        AttributesStand source attrsEnd reading.value.attrsEnd reading.value.attributes ∧
        IsBoundary source reading.value.attrsEnd ∧
        reading.value.attrsEnd ≤ reading.next.offset ∧
        ElementsStand source c.offset reading.next.offset reading.elements
  | _, .element _ start, c, reading =>
      IsBehindLess source start c → ElementsStand source start reading.next.offset reading.elements
  | _, .code _ _ _, c, reading =>
      ElementsStand source c.offset reading.next.offset reading.elements
  | _, .template _, c, reading =>
      ElementsStand source c.offset reading.next.offset reading.elements
  | _, .attributeValue _ _, c, reading =>
      ElementsStand source c.offset reading.next.offset reading.elements

theorem Cursor.IsIn.isBehindLess (h : c.IsIn source) (hrest : c.rest = '<' :: rest) :
    IsBehindLess source c.offset c.advance where
  covers :=
    have hless : Covers source ⟨c.offset, c.offset + utf8Length ['<']⟩ ['<'] := h.covers hrest
    hless
  offset := Cursor.offset_past ['<'] hrest

theorem ChildrenStand.since {close : Option ClosingTag}
    (h : ChildrenStand source middle last elements close) (hle : first ≤ middle) :
    ChildrenStand source first last elements close := by
  cases close with
  | none => exact ElementsStand.since h hle
  | some tag => exact ⟨h.1.since hle, h.2⟩

theorem ChildrenStand.behind {close : Option ClosingTag}
    (h' : ChildrenStand source middle last others close)
    (h : ElementsStand source first middle elements) :
    ChildrenStand source first last (elements ++ others) close := by
  cases close with
  | none => exact h.append h'
  | some tag => exact ⟨h.append h'.1, h'.2⟩

/-- An element with its closing tag, with all that was found inside its opening tag and among its
children. -/
theorem ElementsStand.enclosing (close : Option ClosingTag) (hstands : element.Stands source)
    (hspan : element.span = ⟨first, middle⟩)
    (hopen : close.isSome → element.selfClosing = false)
    (hinside : ElementsStand source (first + 1) middle elements)
    (hchildren : ChildrenStand source middle last others close) :
    ElementsStand source first last ({ element with close := close } :: (elements ++ others)) := by
  obtain ⟨rfl, rfl⟩ := Span.mk.inj hspan
  have hstands' : ({ element with close := close } : Element).Stands source := { hstands with }
  cases close with
  | none =>
      exact ElementsStand.enclosed hstands' nofun ⟨ElementsStand.le hchildren, nofun⟩
        (Nat.le_refl _) (hinside.append hchildren)
  | some tag =>
      obtain ⟨hchildren, ⟨name, htag⟩, rfl⟩ := hchildren
      have hlt := Nat.le_of_lt htag.start_lt
      refine ElementsStand.enclosed hstands' ?_ ⟨Nat.le_trans hchildren.le hlt, ?_⟩ hlt
        (hinside.append hchildren)
      · rintro _ ⟨⟩
        exact ⟨⟨⟨name, htag⟩, hchildren.le, hopen rfl⟩, Nat.le_refl _⟩
      · rintro _ ⟨⟩
        exact Nat.le_refl _

/-- The element that an opening tag opens stands where the tag was read. -/
theorem Cursor.IsIn.stands_openedElement (hin : c.IsIn source) {depth start : Nat} {body : TagBody}
    {next : Cursor} (hless : IsBehindLess source start c) (hnext : next.IsIn source)
    (hattributes : AttributesStand source
      (c.drop (c.rest.takeWhile Lexical.isNameChar).length).offset body.attrsEnd body.attributes)
    (hboundary : IsBoundary source body.attrsEnd) (hle : body.attrsEnd ≤ next.offset) :
    (openedElement depth start c body next).Stands source where
  opens := hless.covers
  nameStart := hless.offset
  named := hin.covers_name
  attributes := hattributes
  attrsEnd := hboundary
  attrsEnd_le := hle
  stop := hnext.isBoundary

/-- **What readers find.** By induction on the derivation: what a part of it finds lies between the
cursors around that part. -/
theorem Reads.finds {α : Type} {task : Task α} {reading : Reading α}
    (hreads : Reads task c reading) (hin : c.IsIn source) : task.Finds source c reading := by
  induction hreads with
  | codeEnd _ => exact .nil (Nat.le_refl _)
  | @codeTemplate _ _ _ c _ _ _ _ htemplate _ ihtemplate ihcode =>
      have hbefore := ihtemplate hin.advance
      have hafter := ihcode (htemplate.isIn hin.advance)
      exact (hbefore.append hafter).since c.offset_le_advance
  | @codeOpen _ _ _ c _ _ _ _ ih => exact (ih hin.advance).since c.offset_le_advance
  | @codeLeave _ c _ _ => exact .nil c.offset_le_advance
  | @codeClose _ _ _ c _ _ _ _ _ ih => exact (ih hin.advance).since c.offset_le_advance
  | @codeElement _ _ _ c _ _ _ hrest _ helement _ ihelement ihcode =>
      have hbefore := ihelement hin.advance (hin.isBehindLess hrest)
      exact hbefore.append (ihcode (helement.isIn hin.advance))
  | @codeLess _ _ _ c _ _ _ _ _ ih => exact (ih hin.advance).since c.offset_le_advance
  | @codePlain _ _ _ c _ _ _ _ _ _ ih => exact (ih (hin.drop _)).since (c.offset_le_drop _)
  | templateEnd _ => exact .nil (Nat.le_refl _)
  | @templateClose _ c _ _ => exact .nil c.offset_le_advance
  | @templateEscape _ c _ _ _ _ ih => exact (ih (hin.drop 2)).since (c.offset_le_drop 2)
  | @templateHole _ c _ _ _ _ hhole _ ihhole ihtemplate =>
      have hbefore := ihhole (hin.drop 2)
      have hafter := ihtemplate (hhole.isIn (hin.drop 2))
      exact (hbefore.append hafter).since (c.offset_le_drop 2)
  | @templatePlain _ c _ _ _ _ _ _ _ ih => exact (ih hin.advance).since c.offset_le_advance
  | elementEmpty _ _ ih =>
      intro hless
      obtain ⟨hstands, -, hspan, hinside⟩ := ih hin hless
      have hall := ElementsStand.enclosing none hstands hspan nofun hinside
        (.nil (Nat.le_refl _))
      rw [List.append_nil] at hall
      exact hall
  | elementFull hopening hfull _ ihopening ihchildren =>
      intro hless
      obtain ⟨hstands, -, hspan, hinside⟩ := ihopening hin hless
      exact ElementsStand.enclosing _ hstands hspan (fun _ => hfull) hinside
        (ihchildren (hopening.isIn hin))
  | childrenEnd _ => exact .nil (Nat.le_refl _)
  | @childrenHole _ c _ _ _ _ hhole _ ihhole ihchildren =>
      have hbefore := ihhole hin.advance
      have hafter := ihchildren (hhole.isIn hin.advance)
      exact (hafter.behind hbefore).since c.offset_le_advance
  | @childrenClose _ c _ hrest =>
      obtain ⟨hstands, hspan, -⟩ := stands_closingTag hin hrest
      exact ⟨.nil (Nat.le_of_eq (congrArg Span.start hspan).symm), ⟨_, hstands⟩,
        congrArg Span.stop hspan⟩
  | @childrenElement _ c _ _ _ hrest _ helement _ ihelement ihchildren =>
      have hbefore := ihelement hin.advance (hin.isBehindLess hrest)
      exact (ihchildren (helement.isIn hin.advance)).behind hbefore
  | @childrenLess _ c _ _ _ _ _ _ ih => exact (ih hin.advance).since c.offset_le_advance
  | @childrenPlain _ c _ _ _ _ _ _ ih => exact (ih hin.advance).since c.offset_le_advance
  | @openingTag _ _ _ c _ _ hname hbody ih =>
      subst hname
      intro hless
      have hafter := hin.drop (c.rest.takeWhile Lexical.isNameChar).length
      obtain ⟨hattributes, hboundary, hle, helements⟩ :=
        ih hafter (Nat.le_refl _) hafter.isBoundary
      refine ⟨hin.stands_openedElement hless (hbody.isIn hafter) hattributes hboundary hle, rfl, rfl,
        helements.since ?_⟩
      rw [← hless.offset]
      exact c.offset_le_drop _
  | @bodyEnd _ _ _ c _ hhere _ =>
      subst hhere
      intro hle hboundary
      have hskip := c.offset_le_skipWhile Ascii.isBlank
      exact ⟨.nil (Nat.le_refl _), hboundary, Nat.le_trans hle hskip, .nil hskip⟩
  | @bodySelfClose _ _ _ c _ _ hhere _ =>
      subst hhere
      intro hle hboundary
      have hskip := Nat.le_trans (c.offset_le_skipWhile Ascii.isBlank) (Cursor.offset_le_drop _ 2)
      exact ⟨.nil (Nat.le_refl _), hboundary, Nat.le_trans hle hskip, .nil hskip⟩
  | @bodyClose _ _ _ c _ _ hhere _ =>
      subst hhere
      intro hle hboundary
      have hskip := Nat.le_trans (c.offset_le_skipWhile Ascii.isBlank) (Cursor.offset_le_advance _)
      exact ⟨.nil (Nat.le_refl _), hboundary, Nat.le_trans hle hskip, .nil hskip⟩
  | @bodySpread _ _ c _ _ _ _ hhere _ hspread _ ihspread ihbody =>
      subst hhere
      intro hle hboundary
      have hthere := (hin.skipWhile Ascii.isBlank).advance
      have hskip := Nat.le_trans (c.offset_le_skipWhile Ascii.isBlank) (Cursor.offset_le_advance _)
      have hbefore := ihspread hthere
      have hnext := hspread.isIn hthere
      obtain ⟨hattributes, hlast, hstop, hafter⟩ := ihbody hnext (Nat.le_refl _) hnext.isBoundary
      exact ⟨hattributes.since (Nat.le_trans hle (Nat.le_trans hskip hbefore.le)), hlast, hstop,
        (hbefore.append hafter).since hskip⟩
  | @bodyAttribute _ _ _ c _ _ _ name _ _ hhere _ _ _ hvalue _ ihvalue ihbody =>
      subst hhere
      intro hle hboundary
      have hhere := hin.skipWhile Ascii.isBlank
      have hthere := hhere.drop name.length
      have hskip := c.offset_le_skipWhile Ascii.isBlank
      have hbefore := (ihvalue hthere).since (Cursor.offset_le_drop _ name.length)
      have hnext := hvalue.isIn hthere
      obtain ⟨hattributes, hlast, hstop, hafter⟩ := ihbody hnext (Nat.le_refl _) hnext.isBoundary
      obtain ⟨text, hcovers⟩ := hhere.exists_covers hnext hbefore.le
      exact ⟨hattributes.cons hcovers (Nat.le_trans hle hskip), hlast, hstop,
        (hbefore.append hafter).since hskip⟩
  | @bodySkip _ _ _ c _ _ _ _ hhere _ _ _ _ _ _ ih =>
      subst hhere
      intro hle hboundary
      have hskip := Nat.le_trans (c.offset_le_skipWhile Ascii.isBlank) (Cursor.offset_le_advance _)
      obtain ⟨hattributes, hlast, hstop, hafter⟩ :=
        ih (hin.skipWhile _).advance (Nat.le_trans hle hskip) hboundary
      exact ⟨hattributes, hlast, hstop, hafter.since hskip⟩
  | valueNone _ => exact .nil (Nat.le_refl _)
  | @valueMissing _ _ c _ _ hhere _ =>
      subst hhere
      exact .nil c.offset_le_value
  | @valueQuoted _ _ c _ _ _ _ hhere _ _ =>
      subst hhere
      refine .nil (Nat.le_trans c.offset_le_value ?_)
      exact Nat.le_trans (Cursor.offset_le_advance _)
        (Nat.le_trans (Cursor.offset_le_drop _ _) (Cursor.offset_le_advance _))
  | @valueExpression _ c _ _ _ _ hhere _ _ ih =>
      subst hhere
      have hcode := ih ((hin.skipWhile _).advance.skipWhile _).advance
      exact hcode.since (Nat.le_trans c.offset_le_value (Cursor.offset_le_advance _))
  | @valueUnquoted _ _ c _ _ _ _ hhere _ _ _ =>
      subst hhere
      exact .nil (Nat.le_trans c.offset_le_value (Cursor.offset_le_drop _ _))

/-- The elements of a module are what is found from its start on. -/
theorem elements_ofCode {code : String} (h : Element.ofCode code = .ok elements) :
    elements = (readCode false 0 0 (.start code.toList)).val.elements := by
  unfold Element.ofCode at h
  dsimp only at h
  split at h
  · cases h
  · exact (Except.ok.inj h).symm

/-- **The tags of code.** -/
theorem tagStructure_ofCode {code : String} (h : Element.ofCode code = .ok elements) :
    TagStructure code.toList elements := by
  have hreads := reads_readCode false 0 0 (.start code.toList)
  have hfound := hreads.finds (Cursor.isIn_start code.toList)
  rw [elements_ofCode h]
  exact .of_precedes hfound.stands hfound.closed hfound.precedes

/-! ### Markup -/

/-- A tag that stands in the text where it says. -/
def MarkupTag.Stands (source : List Char) : MarkupTag → Prop
  | opening element => element.Stands source ∧ element.close = none
  | closing name tag => tag.Stands source name

/-- The elements that were found so far stand in the text, and so do the closing tags that they have,
which have their names. -/
structure OpenElements.AllStand (source : List Char) (state : OpenElements) : Prop where
  stands : ∀ element ∈ state.elements.toList, element.Stands source ∧
    ∀ tag ∈ element.close, tag.Stands source element.name
  named : ∀ entry ∈ state.openNames,
    state.elements.toList[entry.1]?.map Element.name = some entry.2

variable {state : OpenElements}

theorem stands_readOpeningTag (h : c.IsIn source) (hrest : c.rest = '<' :: rest) :
    (MarkupTag.opening (readOpeningTag .markup 0 c.offset c.advance).val.value).Stands source := by
  have hreads := reads_readOpeningTag .markup 0 c.offset c.advance
  obtain ⟨hstands, hclose, -⟩ := hreads.finds h.advance (h.isBehindLess hrest)
  exact ⟨hstands, hclose⟩

theorem stands_markupTags (hin : c.IsIn source) : ∀ tag ∈ markupTags c, tag.Stands source := by
  fun_induction markupTags c with
  | case1 c hrest => exact fun _ htag => absurd htag List.not_mem_nil
  | case2 c _ _ _ ih => exact ih (hin.drop _)
  | case3 c _ _ _ _ ih => exact ih (hin.drop _)
  | case4 c _ _ _ ih => exact ih (hin.drop _)
  | case5 c _ hrest _ ih =>
      obtain ⟨hstands, -, hnext⟩ := stands_closingTag hin hrest
      exact List.forall_mem_cons.2 ⟨hstands, ih hnext⟩
  | case6 c _ _ _ _ _ _ hrest _ opening _ hread _ ih =>
      have hstands := stands_readOpeningTag hin hrest
      have hnext := (reads_readOpeningTag .markup 0 c.offset c.advance).isIn hin.advance
      rw [hread] at hstands hnext
      exact List.forall_mem_cons.2 ⟨hstands, ih (hnext.skipRawText opening.value).1⟩
  | case7 c _ _ _ _ _ _ _ _ ih => exact ih hin.advance
  | case8 c _ _ _ ih => exact ih (hin.drop _)
  | case9 c _ _ _ _ _ _ _ _ _ ih => exact ih hin.advance

theorem OpenElements.AllStand.opened (h : state.AllStand source)
    (helement : (MarkupTag.opening element).Stands source) :
    (state.opened element).AllStand source := by
  obtain ⟨hstands, hclose⟩ := helement
  constructor
  · rw [toList_opened, List.forall_mem_append, List.forall_mem_singleton]
    refine ⟨h.stands, { hstands with }, fun tag htag => ?_⟩
    rw [hclose] at htag
    cases htag
  · have hkept : ∀ entry ∈ state.openNames,
        (state.opened element).elements.toList[entry.1]?.map Element.name = some entry.2 := by
      intro entry hentry
      have hnamed := h.named entry hentry
      obtain ⟨found, hfound, -⟩ := Option.map_eq_some_iff.1 hnamed
      rw [toList_opened, List.getElem?_append_left (List.getElem?_eq_some_iff.1 hfound).1]
      exact hnamed
    intro entry hentry
    unfold OpenElements.opened at hentry
    dsimp only at hentry
    split at hentry
    · exact hkept entry hentry
    · rcases List.mem_cons.1 hentry with rfl | hentry
      · rw [toList_opened, ← Array.length_toList, List.getElem?_concat_length]
        rfl
      · exact hkept entry hentry

/-- A closing tag is given to an element of its name. -/
theorem OpenElements.AllStand.closed {name : String} (h : state.AllStand source)
    (htag : tag.Stands source name) : (state.closed name tag).AllStand source := by
  unfold OpenElements.closed
  split
  · exact h
  · next index opened outer houter =>
      have hsuffix : (index, opened) :: outer <:+ state.openNames :=
        houter ▸ List.dropWhile_suffix _
      have hopened : opened = name := by
        have hhead := List.head?_dropWhile_not (·.2 != name) state.openNames
        simpa [houter] using hhead
      have hnamed := h.named _ (hsuffix.subset List.mem_cons_self)
      constructor
      · intro element hmem
        obtain ⟨place, hplace⟩ := List.mem_iff_getElem?.1 hmem
        rw [Array.toList_modify, List.getElem?_modify] at hplace
        obtain ⟨old, hold, rfl⟩ := Option.map_eq_some_iff.1 hplace
        obtain ⟨hstands, hclose⟩ := h.stands old (List.mem_of_getElem? hold)
        split
        · next heq =>
            subst heq
            have hname : old.name = name := by
              rw [hold] at hnamed
              exact (Option.some.inj hnamed).trans hopened
            refine ⟨{ hstands with }, ?_⟩
            rintro _ ⟨⟩
            rwa [hname]
        · exact ⟨hstands, hclose⟩
      · intro entry hentry
        have hkept := h.named entry (hsuffix.subset (List.mem_cons_of_mem _ hentry))
        obtain ⟨found, hfound, hname⟩ := Option.map_eq_some_iff.1 hkept
        rw [Array.toList_modify, List.getElem?_modify, hfound, Option.map_eq_map, Option.map_some,
          Option.map_some, ← hname]
        split <;> rfl

theorem OpenElements.AllStand.steps {tags : List MarkupTag} (h : state.AllStand source)
    (htags : ∀ tag ∈ tags, tag.Stands source) :
    (tags.foldl OpenElements.step state).AllStand source := by
  induction tags generalizing state with
  | nil => exact h
  | cons tag tags ih =>
      obtain ⟨htag, htags⟩ := List.forall_mem_cons.1 htags
      refine ih ?_ htags
      cases tag with
      | opening element => exact h.opened htag
      | closing name tag => exact h.closed htag

/-- **The tags of markup.** -/
theorem tagStructure_ofMarkup (markup : String) :
    TagStructure markup.toList (Element.ofMarkup markup) ∧
      ∀ element ∈ Element.ofMarkup markup,
        (element.isEmpty = true → element.close = none) ∧
          ∀ tag ∈ element.close, Covers markup.toList tag.nameSpan element.name.toList := by
  have hin := Cursor.isIn_start markup.toList
  have hstate : (OpenElements.mk #[] []).AllStand markup.toList := ⟨nofun, nofun⟩
  have hall := hstate.steps (stands_markupTags hin)
  obtain ⟨hnests, hwithin⟩ := nested_ofMarkup markup
  have hempty : ∀ element ∈ Element.ofMarkup markup, element.isEmpty = true → element.close = none :=
    fun element hmem => (hwithin element hmem).2.2
  refine ⟨.of_precedes (fun element hmem => (hall.stands element hmem).1) ?_ ?_, ?_⟩
  · intro element hmem tag htag
    refine ⟨⟨_, (hall.stands element hmem).2 tag htag⟩,
      ((hwithin element hmem).2.1 tag htag).first_le, ?_⟩
    refine Bool.eq_false_iff.2 fun hself => ?_
    have hnone := hempty element hmem (by simp [Element.isEmpty, hself])
    rw [hnone] at htag
    cases htag
  · refine hnests.imp_of_mem fun {element later} hmem _ hnests => ⟨?_, ?_⟩
    · exact Nat.lt_of_lt_of_le ((hall.stands element hmem).1).start_lt hnests.opening
    · intro tag htag tag' htag'
      rcases hnests.closing tag htag with hle | hover
      · exact .inl hle
      · exact .inr (hover.closing tag' htag')
  · exact fun element hmem => ⟨hempty element hmem, fun tag htag =>
      ((hall.stands element hmem).2 tag htag).named⟩

/--
**Tags are well structured.** Whatever text is read, as code or as markup, its tags stand in it in
order and pair up like brackets; and in markup a closing tag has the name of its element, and an
element that can have nothing inside has none.
-/
theorem tags_well_structured (source : String) :
    (∀ elements, Element.ofCode source = .ok elements → TagStructure source.toList elements) ∧
      TagStructure source.toList (Element.ofMarkup source) ∧
        ∀ element ∈ Element.ofMarkup source,
          (element.isEmpty = true → element.close = none) ∧
            ∀ tag ∈ element.close, Covers source.toList tag.nameSpan element.name.toList :=
  ⟨fun _ h => tagStructure_ofCode h, tagStructure_ofMarkup source⟩

/-- An element in the attribute of another one, and a tag that is broken off. -/
def brokenSource : String :=
  "x = <A b={<C>é</C>} {...d}><E f=g/></ A><"

set_option maxRecDepth 100000 in
theorem tags_well_structured_of_broken :
    ∃ elements, Element.ofCode brokenSource = .ok elements ∧
      elements.map Element.name = ["A", "C", "E"] ∧ TagStructure brokenSource.toList elements := by
  have hcomputed : (Element.ofCode brokenSource).toOption.any
      (fun elements => elements.map Element.name = ["A", "C", "E"]) = true := by
    decide +kernel
  cases hread : Element.ofCode brokenSource with
  | error severed =>
      rw [hread] at hcomputed
      cases hcomputed
  | ok elements =>
      rw [hread] at hcomputed
      exact ⟨elements, rfl, of_decide_eq_true hcomputed,
        (tags_well_structured brokenSource).1 elements hread⟩

end Structure

end ComponentTags
