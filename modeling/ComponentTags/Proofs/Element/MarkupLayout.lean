import ComponentTags.Element.Markup
import ComponentTags.Proofs.Element.Layout

/-!
Where the names and attribute ends of markup lie. Pairing gives each closing tag to one element at
most, so the places of the elements are places of the tags.
-/

namespace ComponentTags

/-- The places of a tag that an edit may touch. -/
def MarkupTag.places : MarkupTag → List Span
  | opening element => element.places
  | closing _ tag => [tag.nameSpan]

def OpenElements.places (state : OpenElements) : List Span :=
  state.elements.toList.flatMap Element.places

/-- A place of a text that is its end or stands behind a `>`. -/
structure EndsTag (source : List Char) (offset : Nat) : Prop where
  split : ∃ front rest, source = front ++ rest ∧ offset = utf8Length front ∧
    (rest = [] ∨ front.getLast? = some '>')

/-- Tags that lie in a text from some offset on. -/
structure TagsLaid (source : List Char) (first : Nat) (tags : List MarkupTag) : Prop where
  laid : Laid source first (utf8Length source) (tags.flatMap MarkupTag.places)
  ends : ∀ element, .opening element ∈ tags → EndsTag source element.span.stop

section Markup

variable {source : List Char} {c : Cursor} {first last : Nat} {rest : List Span}
  {state : OpenElements} {element : Element}

/-! ### Ends of opening tags -/

/-- What is read of a tag ends behind its `>`, or where the text ends. -/
def Task.Ends : {α : Type} → Task α → Reading α → Prop
  | _, .openingTag _ _ _, reading =>
      reading.value.span.stop = reading.next.offset ∧
        (reading.next.rest = [] ∨ reading.next.before.head? = some '>')
  | _, .tagBody _ _ _, reading =>
      reading.next.rest = [] ∨ reading.next.before.head? = some '>'
  | _, _, _ => True

theorem Reads.ends {α : Type} {task : Task α} {reading : Reading α}
    (hreads : Reads task c reading) : task.Ends reading := by
  induction hreads with
  | openingTag _ _ ih => exact ⟨rfl, ih⟩
  | bodyEnd _ hrest => exact .inl hrest
  | bodySelfClose _ hrest =>
      right
      rw [Reading.next_found, Cursor.before_drop, hrest]
      rfl
  | bodyClose _ hrest =>
      right
      rw [Reading.next_found, Cursor.advance_of_rest hrest]
      rfl
  | bodySpread _ _ _ _ _ ih => exact ih
  | bodyAttribute _ _ _ _ _ _ _ ih => exact ih
  | bodySkip _ _ _ _ _ _ _ ih => exact ih
  | _ => trivial

theorem endsTag_of_cursor (hin : c.IsIn source)
    (hends : c.rest = [] ∨ c.before.head? = some '>') : EndsTag source c.offset where
  split := by
    refine ⟨c.before.reverse, c.rest, hin.text, ?_, ?_⟩
    · rw [utf8Length_reverse, hin.offset]
    · rw [List.getLast?_reverse]
      exact hends

/-! ### Tags -/

theorem Cursor.IsIn.skipRawText (hin : c.IsIn source) (element : Element) :
    (c.skipRawText element).IsIn source ∧ c.offset ≤ (c.skipRawText element).offset := by
  unfold Cursor.skipRawText
  split
  · exact ⟨hin.drop _, c.offset_le_drop _⟩
  · exact ⟨hin, Nat.le_refl _⟩

theorem laid_readOpeningTag (hin : c.IsIn source) (start : Nat) :
    (readOpeningTag .markup 0 start c).val.next.IsIn source ∧
      Laid source c.offset (readOpeningTag .markup 0 start c).val.next.offset
        (readOpeningTag .markup 0 start c).val.value.places ∧
      EndsTag source (readOpeningTag .markup 0 start c).val.value.span.stop := by
  have hreads := reads_readOpeningTag .markup 0 start c
  have hnext := hreads.isIn hin
  obtain ⟨-, hlaid⟩ := hreads.lays hin
  obtain ⟨hstop, hends⟩ := hreads.ends
  refine ⟨hnext, hlaid.sublist (List.sublist_append_left _ _), ?_⟩
  rw [hstop]
  exact endsTag_of_cursor hnext hends

theorem TagsLaid.since {middle : Nat} {tags : List MarkupTag} (h : TagsLaid source middle tags)
    (hle : first ≤ middle) : TagsLaid source first tags :=
  ⟨h.laid.since hle, h.ends⟩

theorem TagsLaid.cons {middle middle' : Nat} {tag : MarkupTag} {tags : List MarkupTag}
    (htag : Laid source first middle tag.places)
    (hends : ∀ element, tag = .opening element → EndsTag source element.span.stop)
    (hmiddle : middle ≤ middle') (h : TagsLaid source middle' tags) :
    TagsLaid source first (tag :: tags) where
  laid := htag.append hmiddle h.laid
  ends := by
    intro element hmem
    rcases List.mem_cons.1 hmem with heq | hmem
    · exact hends element heq.symm
    · exact h.ends element hmem

theorem laid_markupTags (hin : c.IsIn source) : TagsLaid source c.offset (markupTags c) := by
  fun_induction markupTags c with
  | case1 c hrest => exact ⟨.nil hin.offset_le, by simp⟩
  | case2 c _ _ _ ih => exact (ih (hin.drop _)).since (c.offset_le_drop _)
  | case3 c _ _ _ _ ih => exact (ih (hin.drop _)).since (c.offset_le_drop _)
  | case4 c _ _ _ ih => exact (ih (hin.drop _)).since (c.offset_le_drop _)
  | case5 c _ _ _ ih =>
      obtain ⟨hnext, hlaid⟩ := hin.closingTag
      exact .cons hlaid (fun _ heq => nomatch heq) (Nat.le_refl _) (ih hnext)
  | case6 c _ _ _ _ _ _ _ _ opening _ hread _ ih =>
      obtain ⟨hnext, hlaid, hends⟩ := laid_readOpeningTag hin.advance c.offset
      rw [hread] at hnext hlaid hends
      obtain ⟨hraw, hafter⟩ := hnext.skipRawText opening.value
      refine .cons (hlaid.since c.offset_le_advance) ?_ hafter (ih hraw)
      intro element heq
      cases heq
      exact hends
  | case7 c _ _ _ _ _ _ _ _ ih => exact (ih hin.advance).since c.offset_le_advance
  | case8 c _ _ _ ih => exact (ih (hin.drop _)).since (c.offset_le_drop _)
  | case9 c _ _ _ _ _ _ _ _ _ ih => exact (ih hin.advance).since c.offset_le_advance

/-! ### Pairing -/

theorem places_opened (state : OpenElements) (element : Element) :
    (state.opened element).places = state.places ++ element.places := by
  unfold OpenElements.places OpenElements.opened
  rw [Array.toList_push, List.flatMap_append, List.flatMap_singleton]
  rfl

/-- A closing tag takes the place of the one that the element may have had. -/
theorem Laid.close {front after : List Element} {tag : ClosingTag}
    (h : Laid source first last
      ((front ++ element :: after).flatMap Element.places ++ (tag.nameSpan :: rest))) :
    Laid source first last
      ((front ++ { element with close := some tag } :: after).flatMap Element.places ++ rest) := by
  rw [List.flatMap_append, List.flatMap_cons, List.append_assoc, List.append_assoc] at h ⊢
  have hplaces : element.places =
      [element.nameSpan, ⟨element.attrsEnd, element.attrsEnd⟩]
        ++ element.close.toList.map ClosingTag.nameSpan :=
    rfl
  have hclosed : { element with close := some tag }.places =
      [element.nameSpan, ⟨element.attrsEnd, element.attrsEnd⟩] ++ [tag.nameSpan] :=
    rfl
  rw [hplaces, List.append_assoc] at h
  rw [hclosed, List.append_assoc]
  have hdropped := h.sublist (.append_left (.append_left (List.sublist_append_right _ _) _) _)
  exact hdropped.perm (.append_left _ (.append_left _ List.perm_middle))

theorem Laid.closed (name : String) (tag : ClosingTag)
    (h : Laid source first last (state.places ++ (tag.nameSpan :: rest))) :
    Laid source first last ((state.closed name tag).places ++ rest) := by
  have hkept : Laid source first last (state.places ++ rest) :=
    h.sublist (.append_left (List.sublist_cons_self _ _) _)
  unfold OpenElements.closed
  split
  · exact hkept
  · next index outer tail _ =>
      unfold OpenElements.places
      rw [Array.toList_modify]
      by_cases hindex : index < state.elements.toList.length
      · obtain ⟨front, element, after, helements, -, hmodify⟩ :=
          List.exists_of_modify (fun element => { element with close := some tag }) hindex
        unfold OpenElements.places at h
        rw [helements] at h
        rw [hmodify]
        exact h.close
      · rw [List.modify_eq_self (Nat.le_of_not_lt hindex)]
        exact hkept

theorem Laid.pair {tags : List MarkupTag}
    (h : Laid source first last (state.places ++ tags.flatMap MarkupTag.places)) :
    Laid source first last (tags.foldl OpenElements.step state).places := by
  induction tags generalizing state with
  | nil => simpa using h
  | cons tag tags ih =>
      apply ih
      cases tag with
      | opening element =>
          rw [OpenElements.step, places_opened, List.append_assoc]
          exact h
      | closing name tag => exact Laid.closed name tag h

theorem ends_step {tag : MarkupTag}
    (hstate : ∀ element ∈ state.elements.toList, EndsTag source element.span.stop)
    (htag : ∀ element, tag = .opening element → EndsTag source element.span.stop) :
    ∀ element ∈ (state.step tag).elements.toList, EndsTag source element.span.stop := by
  intro element hmem
  cases tag with
  | opening opened =>
      have hpush : (state.step (.opening opened)).elements.toList =
          state.elements.toList ++ [{ opened with depth := state.openNames.length }] :=
        Array.toList_push
      rw [hpush, List.mem_append, List.mem_singleton] at hmem
      rcases hmem with hmem | rfl
      · exact hstate element hmem
      · exact htag opened rfl
  | closing name tag =>
      rw [OpenElements.step] at hmem
      unfold OpenElements.closed at hmem
      split at hmem
      · exact hstate element hmem
      · obtain ⟨place, hplace⟩ := List.mem_iff_getElem?.1 hmem
        rw [Array.toList_modify, List.getElem?_modify] at hplace
        obtain ⟨old, hold, rfl⟩ := Option.map_eq_some_iff.1 hplace
        have hends := hstate old (List.mem_of_getElem? hold)
        split <;> exact hends

theorem ends_pair {tags : List MarkupTag}
    (hstate : ∀ element ∈ state.elements.toList, EndsTag source element.span.stop)
    (htags : ∀ element, .opening element ∈ tags → EndsTag source element.span.stop) :
    ∀ element ∈ (tags.foldl OpenElements.step state).elements.toList,
      EndsTag source element.span.stop := by
  induction tags generalizing state with
  | nil => exact hstate
  | cons tag tags ih =>
      apply ih
      · apply ends_step hstate
        intro element heq
        exact htags element (heq ▸ List.mem_cons_self)
      · intro element hmem
        exact htags element (List.mem_cons_of_mem _ hmem)

/-- **What markup lays out.** The places of its elements are apart from each other. -/
theorem laid_ofMarkup (source : String) :
    Laid source.toList 0 (utf8Length source.toList)
        ((Element.ofMarkup source).flatMap Element.places) ∧
      ∀ element ∈ Element.ofMarkup source, EndsTag source.toList element.span.stop := by
  have htags := laid_markupTags (Cursor.isIn_start source.toList)
  refine ⟨Laid.pair ?_, ends_pair ?_ htags.ends⟩
  · exact htags.laid
  · intro element hmem
    cases hmem

end Markup

end ComponentTags
