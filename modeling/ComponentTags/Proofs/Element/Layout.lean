import ComponentTags.Proofs.Element.Derivations
import ComponentTags.Proofs.Source.Cursors

/-!
Where the names and attribute ends of elements lie. They are words of the source that do not overlap:
each is over before the next one starts, however tags and code nest and wherever the source breaks off.
-/

namespace ComponentTags

/-- Two spans of which one is over before the other one starts. -/
def Span.Apart (first second : Span) : Prop :=
  first.stop ≤ second.start ∨ second.stop ≤ first.start

/-- A span of a text that covers characters of names only, or nothing. -/
structure IsWord (source : List Char) (span : Span) : Prop where
  split : ∃ front word rest, source = front ++ (word ++ rest) ∧ span.start = utf8Length front ∧
    span.stop = utf8Length front + utf8Length word ∧ ∀ ch ∈ word, Lexical.isNameChar ch = true

/-- Spans of a text that lie between two offsets, cover words and are apart from each other. -/
structure Laid (source : List Char) (first last : Nat) (spans : List Span) : Prop where
  le : first ≤ last
  words : ∀ span ∈ spans, IsWord source span
  inside : ∀ span ∈ spans, first ≤ span.start ∧ span.stop ≤ last
  apart : spans.Pairwise Span.Apart

/-- The places of an element that an edit may touch. -/
def Element.places (element : Element) : List Span :=
  element.nameSpan :: ⟨element.attrsEnd, element.attrsEnd⟩
    :: element.close.toList.map ClosingTag.nameSpan

def Reading.places {α : Type} (reading : Reading α) : List Span :=
  reading.elements.flatMap Element.places

section Layout

variable {source : List Char} {c : Cursor} {span : Span} {first middle middle' last : Nat}
  {spans others : List Span}

theorem Span.Apart.symm {first second : Span} (h : first.Apart second) : second.Apart first :=
  Or.symm h

theorem IsWord.start_le_stop (h : IsWord source span) : span.start ≤ span.stop := by
  obtain ⟨front, word, rest, -, hstart, hstop, -⟩ := h.split
  omega

theorem Cursor.IsIn.isWord_point (h : c.IsIn source) : IsWord source ⟨c.offset, c.offset⟩ where
  split := by
    have hfront : c.offset = utf8Length c.before.reverse := by
      rw [utf8Length_reverse, h.offset]
    exact ⟨c.before.reverse, [], c.rest, h.text, hfront, hfront, by simp⟩

theorem Cursor.IsIn.isWord_name (h : c.IsIn source) : IsWord source
    ⟨c.offset, (c.drop (c.rest.takeWhile Lexical.isNameChar).length).offset⟩ where
  split := by
    have hfront : c.offset = utf8Length c.before.reverse := by
      rw [utf8Length_reverse, h.offset]
    refine ⟨c.before.reverse, c.rest.takeWhile Lexical.isNameChar,
      c.rest.dropWhile Lexical.isNameChar, ?_, hfront, ?_, ?_⟩
    · rw [List.takeWhile_append_dropWhile]
      exact h.text
    · have htake := List.prefix_iff_eq_take.1 (List.takeWhile_prefix Lexical.isNameChar (l := c.rest))
      dsimp only
      rw [Cursor.offset_drop, ← hfront, ← htake]
    · intro ch hch
      exact List.all_eq_true.1 List.all_takeWhile ch hch

theorem Laid.nil (h : first ≤ last) : Laid source first last [] :=
  ⟨h, by simp, by simp, .nil⟩

theorem Laid.singleton (hword : IsWord source span) (hfirst : first ≤ span.start)
    (hlast : span.stop ≤ last) : Laid source first last [span] where
  le := Nat.le_trans hfirst (Nat.le_trans hword.start_le_stop hlast)
  words := by simpa using hword
  inside := by simpa using ⟨hfirst, hlast⟩
  apart := List.pairwise_singleton _ _

theorem Laid.widen (h : Laid source middle middle' spans) (hfirst : first ≤ middle)
    (hlast : middle' ≤ last) : Laid source first last spans where
  le := Nat.le_trans hfirst (Nat.le_trans h.le hlast)
  words := h.words
  inside := by
    intro span hspan
    obtain ⟨hstart, hstop⟩ := h.inside span hspan
    exact ⟨Nat.le_trans hfirst hstart, Nat.le_trans hstop hlast⟩
  apart := h.apart

theorem Laid.append (h : Laid source first middle spans) (hmiddle : middle ≤ middle')
    (h' : Laid source middle' last others) : Laid source first last (spans ++ others) where
  le := Nat.le_trans h.le (Nat.le_trans hmiddle h'.le)
  words := by
    intro span hspan
    rcases List.mem_append.1 hspan with hspan | hspan
    · exact h.words span hspan
    · exact h'.words span hspan
  inside := by
    intro span hspan
    rcases List.mem_append.1 hspan with hspan | hspan
    · exact (h.widen (Nat.le_refl _) (Nat.le_trans hmiddle h'.le)).inside span hspan
    · exact (h'.widen (Nat.le_trans h.le hmiddle) (Nat.le_refl _)).inside span hspan
  apart := by
    refine List.pairwise_append.2 ⟨h.apart, h'.apart, ?_⟩
    intro span hspan other hother
    have hstop := (h.inside span hspan).2
    have hstart := (h'.inside other hother).1
    exact .inl (Nat.le_trans hstop (Nat.le_trans hmiddle hstart))

theorem Laid.perm (h : Laid source first last spans) (hperm : spans.Perm others) :
    Laid source first last others where
  le := h.le
  words := fun span hspan => h.words span (hperm.mem_iff.2 hspan)
  inside := fun span hspan => h.inside span (hperm.mem_iff.2 hspan)
  apart := (hperm.pairwise_iff Span.Apart.symm).1 h.apart

theorem Laid.sublist (h : Laid source first last spans) (hsublist : others.Sublist spans) :
    Laid source first last others where
  le := h.le
  words := fun span hspan => h.words span (hsublist.mem hspan)
  inside := fun span hspan => h.inside span (hsublist.mem hspan)
  apart := h.apart.sublist hsublist

theorem places_andThen {α β : Type} (before : Reading α) (after : Reading β) :
    (before.andThen after).places = before.places ++ after.places :=
  List.flatMap_append

theorem places_map {α β : Type} (f : α → β) (reading : Reading α) :
    (reading.map f).places = reading.places :=
  rfl

/-! ### What a reader lays out -/

/-- The end of the last attribute is a place of the source that lies before a cursor. -/
structure IsEndBefore (source : List Char) (c : Cursor) (attrsEnd : Nat) : Prop where
  le : attrsEnd ≤ c.offset
  isWord : IsWord source ⟨attrsEnd, attrsEnd⟩

/-- What a reading of the task from a cursor on lays out, and how far. -/
def Task.Lays (source : List Char) : {α : Type} → Task α → Cursor → Reading α → Prop
  | _, .children _, c, reading =>
      Laid source c.offset reading.next.offset
        (reading.places ++ reading.value.toList.map ClosingTag.nameSpan)
  | _, .openingTag _ _ _, c, reading =>
      reading.value.close = none ∧
        Laid source c.offset reading.next.offset (reading.value.places ++ reading.places)
  | _, .tagBody _ _ attrsEnd, c, reading =>
      IsEndBefore source c attrsEnd →
        Laid source attrsEnd reading.value.attrsEnd reading.places ∧
          IsEndBefore source reading.next reading.value.attrsEnd
  | _, .code _ _ _, c, reading => Laid source c.offset reading.next.offset reading.places
  | _, .template _, c, reading => Laid source c.offset reading.next.offset reading.places
  | _, .element _ _, c, reading => Laid source c.offset reading.next.offset reading.places
  | _, .attributeValue _ _, c, reading => Laid source c.offset reading.next.offset reading.places

theorem Cursor.IsIn.closingTag (h : c.IsIn source) :
    (closingTag c).next.IsIn source ∧
      Laid source c.offset (closingTag c).next.offset [(closingTag c).value.2.nameSpan] := by
  have hname := (h.drop 2).skipWhile Ascii.isBlank
  refine ⟨(hname.drop _).drop _, .singleton hname.isWord_name ?_ ?_⟩
  · exact Nat.le_trans (c.offset_le_drop 2) (Cursor.offset_le_skipWhile _ _)
  · exact Cursor.offset_le_drop _ _

theorem Reads.isIn {α : Type} {task : Task α} {reading : Reading α}
    (hreads : Reads task c reading) (hin : c.IsIn source) : reading.next.IsIn source := by
  induction hreads with
  | codeEnd _ => exact hin
  | codeTemplate _ _ _ ihtemplate ihcode => exact ihcode (ihtemplate hin.advance)
  | codeOpen _ _ ih => exact ih hin.advance
  | codeLeave _ => exact hin.advance
  | codeClose _ _ _ ih => exact ih hin.advance
  | codeElement _ _ _ _ ihelement ihcode => exact ihcode (ihelement hin.advance)
  | codeLess _ _ _ ih => exact ih hin.advance
  | codePlain _ _ _ ih => exact ih (hin.drop _)
  | templateEnd _ => exact hin
  | templateClose _ => exact hin.advance
  | templateEscape _ _ ih => exact ih (hin.drop 2)
  | templateHole _ _ _ ihhole ihtemplate => exact ihtemplate (ihhole (hin.drop 2))
  | templatePlain _ _ _ _ ih => exact ih hin.advance
  | elementEmpty _ _ ih => exact ih hin
  | elementFull _ _ _ ihopening ihchildren => exact ihchildren (ihopening hin)
  | childrenEnd _ => exact hin
  | childrenHole _ _ _ ihhole ihchildren => exact ihchildren (ihhole hin.advance)
  | childrenClose _ => exact hin.closingTag.1
  | childrenElement _ _ _ _ ihelement ihchildren => exact ihchildren (ihelement hin.advance)
  | childrenLess _ _ _ _ ih => exact ih hin.advance
  | childrenPlain _ _ _ ih => exact ih hin.advance
  | openingTag hname _ ih =>
      subst hname
      exact ih (hin.drop _)
  | bodyEnd hhere _ =>
      subst hhere
      exact hin.skipWhile _
  | bodySelfClose hhere _ =>
      subst hhere
      exact (hin.skipWhile _).drop 2
  | bodyClose hhere _ =>
      subst hhere
      exact (hin.skipWhile _).advance
  | bodySpread hhere _ _ _ ihspread ihbody =>
      subst hhere
      exact ihbody (ihspread (hin.skipWhile _).advance)
  | bodyAttribute hhere _ _ _ _ _ ihvalue ihbody =>
      subst hhere
      exact ihbody (ihvalue ((hin.skipWhile _).drop _))
  | bodySkip hhere _ _ _ _ _ _ ih =>
      subst hhere
      exact ih (hin.skipWhile _).advance
  | valueNone _ => exact hin
  | valueMissing _ hhere _ =>
      subst hhere
      exact (hin.skipWhile _).advance.skipWhile _
  | valueQuoted _ hhere _ _ =>
      subst hhere
      exact (((hin.skipWhile _).advance.skipWhile _).advance.drop _).advance
  | valueExpression _ hhere _ _ ih =>
      subst hhere
      exact ih ((hin.skipWhile _).advance.skipWhile _).advance
  | valueUnquoted _ hhere _ _ _ =>
      subst hhere
      exact ((hin.skipWhile _).advance.skipWhile _).drop _

theorem IsEndBefore.later {attrsEnd : Nat} {d : Cursor} (h : IsEndBefore source c attrsEnd)
    (hle : c.offset ≤ d.offset) : IsEndBefore source d attrsEnd :=
  ⟨Nat.le_trans h.le hle, h.isWord⟩

theorem Cursor.IsIn.isEndBefore (h : c.IsIn source) : IsEndBefore source c c.offset :=
  ⟨Nat.le_refl _, h.isWord_point⟩

/-- An opening tag lays out its name, then what its attributes hold, then the place behind them. -/
theorem laid_openedElement (hin : c.IsIn source) {depth start : Nat} {body : Reading TagBody}
    {afterName : Cursor} (hname : afterName = c.drop (c.rest.takeWhile Lexical.isNameChar).length)
    (hbody : Laid source afterName.offset body.value.attrsEnd body.places ∧
      IsEndBefore source body.next body.value.attrsEnd) :
    Laid source c.offset body.next.offset
      ((openedElement depth start c body.value body.next).places ++ body.places) := by
  subst hname
  obtain ⟨hinner, hend⟩ := hbody
  have hnamed := Laid.singleton hin.isWord_name (Nat.le_refl _) (Nat.le_refl _)
  have hpoint := Laid.singleton hend.isWord (Nat.le_refl _) hend.le
  refine ((hnamed.append (Nat.le_refl _) hinner).append (Nat.le_refl _) hpoint).perm ?_
  have hplaces : (openedElement depth start c body.value body.next).places ++ body.places =
      [⟨c.offset, (c.drop (c.rest.takeWhile Lexical.isNameChar).length).offset⟩]
        ++ ([⟨body.value.attrsEnd, body.value.attrsEnd⟩] ++ body.places) :=
    rfl
  rw [hplaces, List.append_assoc]
  exact List.perm_append_comm.append_left _

theorem places_enclosedBy (opening : Reading Element) (close : Option ClosingTag) :
    (opening.enclosedBy close).places =
      { opening.value with close := close }.places ++ opening.places :=
  rfl

theorem places_close {element : Element} (hopen : element.close = none)
    (close : Option ClosingTag) :
    { element with close := close }.places =
      element.places ++ close.toList.map ClosingTag.nameSpan := by
  unfold Element.places
  rw [hopen]
  rfl

theorem Laid.since (h : Laid source middle last spans) (hle : first ≤ middle) :
    Laid source first last spans :=
  h.widen hle (Nat.le_refl _)

theorem Laid.andThen {α β : Type} {before : Reading α} {after : Reading β}
    (h : Laid source first before.next.offset before.places)
    (h' : Laid source before.next.offset last after.places) :
    Laid source first last (before.andThen after).places := by
  rw [places_andThen]
  exact h.append (Nat.le_refl _) h'

theorem Cursor.offset_le_value (c : Cursor) : c.offset ≤
    ((c.skipWhile Ascii.isBlank).advance.skipWhile Ascii.isBlank).offset :=
  Nat.le_trans (c.offset_le_skipWhile _)
    (Nat.le_trans (Cursor.offset_le_advance _) (Cursor.offset_le_skipWhile _ _))

/-- **What readers lay out.** Every reading lays out its places in the stretch that it reads. -/
theorem Reads.lays {α : Type} {task : Task α} {reading : Reading α}
    (hreads : Reads task c reading) (hin : c.IsIn source) : task.Lays source c reading := by
  induction hreads with
  | codeEnd _ => exact .nil (Nat.le_refl _)
  | @codeTemplate _ _ _ c _ _ _ _ htemplate _ ihtemplate ihcode =>
      have hbefore := ihtemplate hin.advance
      have hafter := ihcode (htemplate.isIn hin.advance)
      exact (hbefore.andThen hafter).since c.offset_le_advance
  | @codeOpen _ _ _ c _ _ _ _ ih => exact (ih hin.advance).since c.offset_le_advance
  | @codeLeave _ c _ _ => exact .nil c.offset_le_advance
  | @codeClose _ _ _ c _ _ _ _ _ ih => exact (ih hin.advance).since c.offset_le_advance
  | @codeElement _ _ _ c _ _ _ _ _ helement _ ihelement ihcode =>
      have hbefore := ihelement hin.advance
      have hafter := ihcode (helement.isIn hin.advance)
      exact (hbefore.andThen hafter).since c.offset_le_advance
  | @codeLess _ _ _ c _ _ _ _ _ ih => exact (ih hin.advance).since c.offset_le_advance
  | @codePlain _ _ _ c _ _ _ _ _ _ ih => exact (ih (hin.drop _)).since (c.offset_le_drop _)
  | templateEnd _ => exact .nil (Nat.le_refl _)
  | @templateClose _ c _ _ => exact .nil c.offset_le_advance
  | @templateEscape _ c _ _ _ _ ih => exact (ih (hin.drop 2)).since (c.offset_le_drop 2)
  | @templateHole _ c _ _ _ _ hhole _ ihhole ihtemplate =>
      have hbefore := ihhole (hin.drop 2)
      have hafter := ihtemplate (hhole.isIn (hin.drop 2))
      exact (hbefore.andThen hafter).since (c.offset_le_drop 2)
  | @templatePlain _ c _ _ _ _ _ _ _ ih => exact (ih hin.advance).since c.offset_le_advance
  | elementEmpty _ _ ih =>
      obtain ⟨hopen, hlaid⟩ := ih hin
      change Laid source _ _ (Reading.places _)
      rw [places_enclosedBy, places_close hopen, Option.toList_none, List.map_nil, List.append_nil]
      exact hlaid
  | elementFull hopening _ _ ihopening ihchildren =>
      obtain ⟨hopen, hlaid⟩ := ihopening hin
      have hinside := ihchildren (hopening.isIn hin)
      change Laid source _ _ (Reading.places _)
      rw [places_andThen, places_map, places_enclosedBy, places_close hopen]
      refine (hlaid.append (Nat.le_refl _) hinside).perm ?_
      -- the name of the closing tag comes last in the source and first in the list
      rw [List.append_assoc, List.append_assoc, List.append_assoc]
      refine .append_left _ ?_
      rw [← List.append_assoc]
      exact List.perm_append_comm
  | childrenEnd _ => exact .nil (Nat.le_refl _)
  | @childrenHole _ c _ _ _ _ hhole _ ihhole ihchildren =>
      have hbefore := ihhole hin.advance
      have hafter := ihchildren (hhole.isIn hin.advance)
      change Laid source _ _ (Reading.places _ ++ _)
      rw [places_andThen, List.append_assoc]
      exact (hbefore.append (Nat.le_refl _) hafter).since c.offset_le_advance
  | childrenClose _ => exact hin.closingTag.2
  | @childrenElement _ c _ _ _ _ _ helement _ ihelement ihchildren =>
      have hbefore := ihelement hin.advance
      have hafter := ihchildren (helement.isIn hin.advance)
      change Laid source _ _ (Reading.places _ ++ _)
      rw [places_andThen, List.append_assoc]
      exact (hbefore.append (Nat.le_refl _) hafter).since c.offset_le_advance
  | @childrenLess _ c _ _ _ _ _ _ ih => exact (ih hin.advance).since c.offset_le_advance
  | @childrenPlain _ c _ _ _ _ _ _ ih => exact (ih hin.advance).since c.offset_le_advance
  | openingTag hname _ ih =>
      subst hname
      exact ⟨rfl, laid_openedElement hin rfl (ih (hin.drop _) (hin.drop _).isEndBefore)⟩
  | @bodyEnd _ _ _ c _ hhere _ =>
      subst hhere
      intro hend
      exact ⟨.nil (Nat.le_refl _), hend.later (c.offset_le_skipWhile _)⟩
  | @bodySelfClose _ _ _ c _ _ hhere _ =>
      subst hhere
      intro hend
      refine ⟨.nil (Nat.le_refl _), hend.later ?_⟩
      exact Nat.le_trans (c.offset_le_skipWhile _) (Cursor.offset_le_drop _ 2)
  | @bodyClose _ _ _ c _ _ hhere _ =>
      subst hhere
      intro hend
      refine ⟨.nil (Nat.le_refl _), hend.later ?_⟩
      exact Nat.le_trans (c.offset_le_skipWhile _) (Cursor.offset_le_advance _)
  | @bodySpread _ _ c _ _ _ _ hhere _ hspread _ ihspread ihbody =>
      subst hhere
      intro hend
      have hthere := (hin.skipWhile Ascii.isBlank).advance
      have hbefore := ihspread hthere
      have hnext := hspread.isIn hthere
      obtain ⟨hafter, hlast⟩ := ihbody hnext hnext.isEndBefore
      refine ⟨(hbefore.andThen hafter).since ?_, hlast⟩
      exact Nat.le_trans hend.le
        (Nat.le_trans (c.offset_le_skipWhile _) (Cursor.offset_le_advance _))
  | @bodyAttribute _ _ _ c _ _ _ name _ _ hhere _ _ _ hvalue _ ihvalue ihbody =>
      subst hhere
      intro hend
      have hthere := (hin.skipWhile Ascii.isBlank).drop name.length
      have hbefore := ihvalue hthere
      have hnext := hvalue.isIn hthere
      obtain ⟨hafter, hlast⟩ := ihbody hnext hnext.isEndBefore
      refine ⟨(hbefore.andThen hafter).since ?_, hlast⟩
      exact Nat.le_trans hend.le
        (Nat.le_trans (c.offset_le_skipWhile _) (Cursor.offset_le_drop _ _))
  | @bodySkip _ _ _ c _ _ _ _ hhere _ _ _ _ _ _ ih =>
      subst hhere
      intro hend
      refine ih (hin.skipWhile _).advance (hend.later ?_)
      exact Nat.le_trans (c.offset_le_skipWhile _) (Cursor.offset_le_advance _)
  | valueNone _ => exact .nil (Nat.le_refl _)
  | @valueMissing _ _ c _ _ hhere _ =>
      subst hhere
      exact .nil c.offset_le_value
  | @valueQuoted _ _ c _ _ _ _ hhere _ _ =>
      subst hhere
      refine .nil (Nat.le_trans c.offset_le_value ?_)
      exact Nat.le_trans (Cursor.offset_le_advance _)
        (Nat.le_trans (Cursor.offset_le_drop _ _) (Cursor.offset_le_advance _))
  | @valueExpression _ c _ _ _ _ hhere _ _ ih =>
      subst hhere
      have hcode := ih ((hin.skipWhile _).advance.skipWhile _).advance
      exact hcode.since (Nat.le_trans c.offset_le_value (Cursor.offset_le_advance _))
  | @valueUnquoted _ _ c _ _ _ _ hhere _ _ _ =>
      subst hhere
      exact .nil (Nat.le_trans c.offset_le_value (Cursor.offset_le_drop _ _))

end Layout

end ComponentTags
