import ComponentTags.Proofs.Element.MarkupLayout

/-!
How the elements of markup nest. Their opening tags stand one behind the other, and an element that
starts inside another one is over when that one is closed, however the tags were written.
-/

namespace ComponentTags

/-- An element whose opening tag lies between two offsets and has the places of the element. -/
structure Element.IsWithin (element : Element) (first last : Nat) : Prop where
  first_le : first ≤ element.span.start
  start_lt : element.span.start < element.span.stop
  le_last : element.span.stop ≤ last
  name : element.span.start ≤ element.nameSpan.start ∧ element.nameSpan.stop ≤ element.span.stop
  attrsEnd : element.span.start ≤ element.attrsEnd ∧ element.attrsEnd ≤ element.span.stop

/-- A closing tag that lies between two offsets and has its name in it. -/
structure ClosingTag.IsWithin (tag : ClosingTag) (first last : Nat) : Prop where
  first_le : first ≤ tag.span.start
  start_lt : tag.span.start < tag.span.stop
  le_last : tag.span.stop ≤ last
  name : tag.span.start ≤ tag.nameSpan.start ∧ tag.nameSpan.stop ≤ tag.span.stop

/-- A tag as it is read, which does not know of its closing tag. -/
def MarkupTag.IsWithin (first last : Nat) : MarkupTag → Prop
  | opening element => element.close = none ∧ element.IsWithin first last
  | closing _ tag => tag.IsWithin first last

/-- Tags that stand one behind the other. -/
inductive TagsWithin (last : Nat) : Nat → List MarkupTag → Prop
  | nil {first : Nat} (h : first ≤ last) : TagsWithin last first []
  | cons {first middle : Nat} {tag : MarkupTag} {tags : List MarkupTag}
      (htag : tag.IsWithin first middle) (h : TagsWithin last middle tags) :
      TagsWithin last first (tag :: tags)

/-- An element whose tags are over at some place. -/
structure Element.IsOver (element : Element) (place : Nat) : Prop where
  opening : element.span.stop ≤ place
  closing : ∀ tag ∈ element.close, tag.span.stop ≤ place

/-- An element and a later one, which starts behind the first one or is over when that is closed. -/
structure Element.Nests (first second : Element) : Prop where
  opening : first.span.stop ≤ second.span.start
  closing : ∀ tag ∈ first.close, tag.span.stop ≤ second.span.start ∨ second.IsOver tag.span.start

/--
The elements found up to some offset. Those that are open were opened one after the other, each one
behind all that was closed by then, and only an element that may have something inside is closed.
-/
structure OpenElements.IsNested (state : OpenElements) (position : Nat) : Prop where
  within : ∀ element ∈ state.elements.toList, element.IsWithin 0 position
  closed : ∀ element ∈ state.elements.toList, ∀ tag ∈ element.close,
    tag.IsWithin element.span.stop position
  nests : state.elements.toList.Pairwise Element.Nests
  empty : ∀ element ∈ state.elements.toList, element.isEmpty = true → element.close = none
  bound : ∀ entry ∈ state.openNames, entry.1 < state.elements.toList.length
  full : ∀ entry ∈ state.openNames, ∀ element ∈ state.elements.toList[entry.1]?,
    element.isEmpty = false
  sorted : state.openNames.Pairwise fun inner outer => outer.1 < inner.1
  behind : ∀ entry ∈ state.openNames, ∀ element ∈ state.elements.toList[entry.1]?,
    ∀ earlier ∈ state.elements.toList.take entry.1, ∀ tag ∈ earlier.close,
      tag.span.stop ≤ element.span.start

section Nesting

variable {source : List Char} {c : Cursor} {element : Element} {tag : ClosingTag}
  {tags : List MarkupTag} {state : OpenElements} {first first' last last' position : Nat}

/-! ### Tags in the order of a text -/

theorem MarkupTag.IsWithin.since {tag : MarkupTag} (h : tag.IsWithin first last) (hle : first' ≤ first) :
    tag.IsWithin first' last := by
  cases tag with
  | opening element => exact ⟨h.1, { h.2 with first_le := Nat.le_trans hle h.2.first_le }⟩
  | closing name tag => exact { h with first_le := Nat.le_trans hle (ClosingTag.IsWithin.first_le h) }

theorem TagsWithin.since (h : TagsWithin last first tags) (hle : first' ≤ first) :
    TagsWithin last first' tags := by
  cases h with
  | nil h => exact .nil (Nat.le_trans hle h)
  | cons htag h => exact .cons (htag.since hle) h

theorem Element.IsWithin.widen (h : element.IsWithin first last) (hle : last ≤ last') :
    element.IsWithin first last' :=
  { h with le_last := Nat.le_trans h.le_last hle }

theorem ClosingTag.IsWithin.widen (h : tag.IsWithin first last) (hle : last ≤ last') :
    tag.IsWithin first last' :=
  { h with le_last := Nat.le_trans h.le_last hle }

theorem ClosingTag.IsWithin.since (h : tag.IsWithin first last) (hle : first' ≤ first) :
    tag.IsWithin first' last :=
  { h with first_le := Nat.le_trans hle h.first_le }

theorem Cursor.offset_lt_advance (hrest : c.rest ≠ []) : c.offset < c.advance.offset := by
  obtain ⟨ch, rest, hrest⟩ := List.exists_cons_of_ne_nil hrest
  rw [Cursor.advance_of_rest hrest]
  exact Nat.lt_add_of_pos_right ch.utf8Size_pos

theorem span_readOpeningTag (style : TagSyntax) (depth start : Nat) (c : Cursor) :
    (readOpeningTag style depth start c).val.value.span =
      ⟨start, (readOpeningTag style depth start c).val.next.offset⟩ ∧
    (readOpeningTag style depth start c).val.value.close = none := by
  rw [readOpeningTag]
  exact ⟨rfl, rfl⟩

theorem isWithin_readOpeningTag (hin : c.IsIn source) (hrest : c.rest ≠ []) :
    (MarkupTag.opening (readOpeningTag .markup 0 c.offset c.advance).val.value).IsWithin c.offset
      (readOpeningTag .markup 0 c.offset c.advance).val.next.offset := by
  obtain ⟨-, hlaid, -⟩ := laid_readOpeningTag hin.advance c.offset
  obtain ⟨hspan, hclose⟩ := span_readOpeningTag .markup 0 c.offset c.advance
  have hstart := Cursor.offset_lt_advance hrest
  have hname := hlaid.inside _ List.mem_cons_self
  have hattrs := hlaid.inside _ (List.mem_cons_of_mem _ List.mem_cons_self)
  have hle := hlaid.le
  refine ⟨hclose, ?_, ?_, ?_, ?_, ?_⟩ <;> rw [hspan] <;> dsimp only at * <;> omega

theorem isWithin_closingTag (hin : c.IsIn source) (hrest : c.rest ≠ []) :
    (closingTag c).value.2.IsWithin c.offset (closingTag c).next.offset := by
  obtain ⟨-, hlaid⟩ := hin.closingTag
  have hname := hlaid.inside _ List.mem_cons_self
  have hstart := Cursor.offset_lt_advance hrest
  have hnext : c.advance.offset ≤ (closingTag c).next.offset := by
    refine Nat.le_trans (c.advance.offset_le_drop 1) ?_
    exact Nat.le_trans (Cursor.offset_le_skipWhile _ _)
      (Nat.le_trans (Cursor.offset_le_drop _ _) (Cursor.offset_le_drop _ _))
  exact ⟨Nat.le_refl _, Nat.lt_of_lt_of_le hstart hnext, Nat.le_refl _, hname⟩

theorem within_markupTags (hin : c.IsIn source) :
    TagsWithin (utf8Length source) c.offset (markupTags c) := by
  fun_induction markupTags c with
  | case1 c hrest => exact .nil hin.offset_le
  | case2 c _ _ _ ih => exact (ih (hin.drop _)).since (c.offset_le_drop _)
  | case3 c _ _ _ _ ih => exact (ih (hin.drop _)).since (c.offset_le_drop _)
  | case4 c _ _ _ ih => exact (ih (hin.drop _)).since (c.offset_le_drop _)
  | case5 c _ hrest _ ih =>
      exact .cons (isWithin_closingTag hin (by simp [hrest])) (ih hin.closingTag.1)
  | case6 c _ _ _ _ _ _ hrest _ opening _ hread _ ih =>
      obtain ⟨hnext, -⟩ := laid_readOpeningTag hin.advance c.offset
      have hwithin := isWithin_readOpeningTag hin (by simp [hrest])
      rw [hread] at hnext hwithin
      obtain ⟨hraw, hafter⟩ := hnext.skipRawText opening.value
      exact .cons hwithin ((ih hraw).since hafter)
  | case7 c _ _ _ _ _ _ _ _ ih => exact (ih hin.advance).since c.offset_le_advance
  | case8 c _ _ _ ih => exact (ih (hin.drop _)).since (c.offset_le_drop _)
  | case9 c _ _ _ _ _ _ _ _ _ ih => exact (ih hin.advance).since c.offset_le_advance

/-! ### What pairing keeps -/

theorem isNested_start (position : Nat) : OpenElements.IsNested ⟨#[], []⟩ position where
  within := nofun
  closed := nofun
  nests := .nil
  empty := nofun
  bound := nofun
  full := nofun
  sorted := .nil
  behind := nofun

theorem OpenElements.IsNested.isOver (h : state.IsNested position)
    (hmem : element ∈ state.elements.toList) : element.IsOver position where
  opening := (h.within element hmem).le_last
  closing := fun tag htag => (h.closed element hmem tag htag).le_last

theorem Element.IsOver.nests (h : element.IsOver position) {later : Element}
    (hle : position ≤ later.span.start) : element.Nests later where
  opening := Nat.le_trans h.opening hle
  closing := fun tag htag => .inl (Nat.le_trans (h.closing tag htag) hle)

theorem toList_opened (state : OpenElements) (element : Element) :
    (state.opened element).elements.toList =
      state.elements.toList ++ [{ element with depth := state.openNames.length }] :=
  Array.toList_push

theorem OpenElements.IsNested.opened (h : state.IsNested first)
    (hopening : (MarkupTag.opening element).IsWithin first last) :
    (state.opened element).IsNested last := by
  obtain ⟨hclose, hwithin⟩ := hopening
  have hle : first ≤ last :=
    Nat.le_trans hwithin.first_le (Nat.le_trans (Nat.le_of_lt hwithin.start_lt) hwithin.le_last)
  have hopen : ∀ entry ∈ (state.opened element).openNames,
      entry ∈ state.openNames ∨
        entry.1 = state.elements.toList.length ∧ element.isEmpty = false := by
    intro entry hentry
    unfold OpenElements.opened at hentry
    dsimp only at hentry
    split at hentry
    · exact .inl hentry
    · next hfull =>
        rcases List.mem_cons.1 hentry with rfl | hentry
        · exact .inr ⟨rfl, Bool.eq_false_iff.2 hfull⟩
        · exact .inl hentry
  refine ⟨?_, ?_, ?_, ?_, ?_, ?_, ?_, ?_⟩
  · rw [toList_opened, List.forall_mem_append, List.forall_mem_singleton]
    exact ⟨fun other hmem => (h.within other hmem).widen hle,
      { hwithin with first_le := Nat.zero_le _ }⟩
  · rw [toList_opened, List.forall_mem_append, List.forall_mem_singleton]
    refine ⟨fun other hmem tag htag => (h.closed other hmem tag htag).widen hle, ?_⟩
    intro tag htag
    rw [hclose] at htag
    cases htag
  · rw [toList_opened, List.pairwise_append]
    refine ⟨h.nests, List.pairwise_singleton _ _, ?_⟩
    intro other hmem later hlater
    obtain rfl := List.mem_singleton.1 hlater
    exact (h.isOver hmem).nests hwithin.first_le
  · rw [toList_opened, List.forall_mem_append, List.forall_mem_singleton]
    exact ⟨h.empty, fun _ => hclose⟩
  · intro entry hentry
    rw [toList_opened, List.length_append, List.length_singleton]
    rcases hopen entry hentry with hentry | ⟨hentry, -⟩
    · exact Nat.lt_succ_of_lt (h.bound entry hentry)
    · omega
  · intro entry hentry
    rw [toList_opened]
    rcases hopen entry hentry with hentry | ⟨hentry, hfull⟩
    · rw [List.getElem?_append_left (h.bound entry hentry)]
      exact h.full entry hentry
    · rw [hentry, List.getElem?_concat_length]
      rintro _ ⟨⟩
      exact hfull
  · unfold OpenElements.opened
    dsimp only
    split
    · exact h.sorted
    · exact .cons h.bound h.sorted
  · intro entry hentry
    rw [toList_opened]
    rcases hopen entry hentry with hentry | ⟨hentry, -⟩
    · have hbound := h.bound entry hentry
      rw [List.getElem?_append_left hbound, List.take_append_of_le_length (Nat.le_of_lt hbound)]
      exact h.behind entry hentry
    · rw [hentry, List.getElem?_concat_length, List.take_left]
      intro later hlater earlier hearlier tag htag
      obtain rfl := Option.some.inj hlater
      exact Nat.le_trans (h.closed earlier hearlier tag htag).le_last hwithin.first_le

/-- What is open after a tag closed an element was open before and stands outside that element. -/
theorem exists_outer {name : String} {index : Nat} {opened : String} {outer : List (Nat × String)}
    (h : state.IsNested position)
    (houter : state.openNames.dropWhile (·.2 != name) = (index, opened) :: outer) :
    (index, opened) ∈ state.openNames ∧ outer.Sublist state.openNames ∧
      (∀ entry ∈ outer, entry.1 < index) ∧
      outer.Pairwise fun inner outer => outer.1 < inner.1 := by
  have hsublist : ((index, opened) :: outer).Sublist state.openNames :=
    houter ▸ List.dropWhile_sublist _
  have hsorted := h.sorted.sublist hsublist
  exact ⟨hsublist.mem List.mem_cons_self, (List.sublist_cons_self _ _).trans hsublist,
    (List.pairwise_cons.1 hsorted).1, (List.pairwise_cons.1 hsorted).2⟩

theorem OpenElements.IsNested.widen (h : state.IsNested first) (hle : first ≤ last) :
    state.IsNested last :=
  { h with
    within := fun element hmem => (h.within element hmem).widen hle
    closed := fun element hmem tag htag => (h.closed element hmem tag htag).widen hle }

/-- The element that a tag closes is over with that tag, and so is all that is inside it. -/
theorem nests_close {front after : List Element} (hwithin : tag.IsWithin first last)
    (hover : ∀ later ∈ after, later.IsOver first)
    (hbehind : ∀ earlier ∈ front, ∀ tag ∈ earlier.close, tag.span.stop ≤ element.span.start)
    (h : (front ++ element :: after).Pairwise Element.Nests) :
    (front ++ { element with close := some tag } :: after).Pairwise Element.Nests := by
  obtain ⟨hfront, hafter, hacross⟩ := List.pairwise_append.1 h
  obtain ⟨helement, hafter⟩ := List.pairwise_cons.1 hafter
  refine List.pairwise_append.2 ⟨hfront, .cons ?_ hafter, ?_⟩
  · intro later hlater
    refine ⟨(helement later hlater).opening, ?_⟩
    rintro _ ⟨⟩
    have hlast := hover later hlater
    exact .inr ⟨Nat.le_trans hlast.opening hwithin.first_le,
      fun tag htag => Nat.le_trans (hlast.closing tag htag) hwithin.first_le⟩
  · intro earlier hearlier later hlater
    have hearlier' := hacross earlier hearlier
    rcases List.mem_cons.1 hlater with rfl | hlater
    · exact ⟨(hearlier' element List.mem_cons_self).opening,
        fun tag htag => .inl (hbehind earlier hearlier tag htag)⟩
    · exact hearlier' later (List.mem_cons_of_mem _ hlater)

theorem OpenElements.IsNested.closing (name : String) (h : state.IsNested first)
    (hwithin : tag.IsWithin first last) : (state.closed name tag).IsNested last := by
  have hle : first ≤ last :=
    Nat.le_trans hwithin.first_le (Nat.le_trans (Nat.le_of_lt hwithin.start_lt) hwithin.le_last)
  unfold OpenElements.closed
  split
  · exact h.widen hle
  · next index opened outer houter =>
      obtain ⟨hindex, hsublist, hbelow, hsorted⟩ := exists_outer h houter
      obtain ⟨front, element, after, helements, hlength, hmodify⟩ := List.exists_of_modify
        (fun element : Element => { element with close := some tag }) (h.bound _ hindex)
      dsimp only at hlength hmodify
      have hstate : (state.elements.modify index fun element =>
          { element with close := some tag }).toList =
            front ++ { element with close := some tag } :: after := by
        rw [Array.toList_modify, hmodify]
      have hwithins := h.within
      have hcloses := h.closed
      have hempty := h.empty
      have hover : ∀ element ∈ state.elements.toList, element.IsOver first := fun _ => h.isOver
      rw [helements, List.forall_mem_append, List.forall_mem_cons] at hwithins hcloses hempty hover
      have helement : element ∈ state.elements.toList[index]? := by
        rw [helements, ← hlength]
        simp
      have hbehind := h.behind _ hindex element helement
      dsimp only at hbehind
      rw [helements, ← hlength, List.take_left] at hbehind
      have hfull := h.full _ hindex element helement
      refine ⟨?_, ?_, ?_, ?_, ?_, ?_, hsorted, ?_⟩ <;> dsimp only <;> rw [hstate]
      · rw [List.forall_mem_append, List.forall_mem_cons]
        exact ⟨fun other hother => (hwithins.1 other hother).widen hle,
          { hwithins.2.1.widen hle with },
          fun other hother => (hwithins.2.2 other hother).widen hle⟩
      · rw [List.forall_mem_append, List.forall_mem_cons]
        refine ⟨fun other hother close hclose => (hcloses.1 other hother close hclose).widen hle, ?_,
          fun other hother close hclose => (hcloses.2.2 other hother close hclose).widen hle⟩
        rintro _ ⟨⟩
        exact hwithin.since hover.2.1.opening
      · exact nests_close hwithin hover.2.2 hbehind (helements ▸ h.nests)
      · rw [List.forall_mem_append, List.forall_mem_cons]
        exact ⟨hempty.1, fun hnone => absurd hfull (by rw [Bool.not_eq_false]; exact hnone), hempty.2.2⟩
      · intro entry hentry
        have hlt := hbelow entry hentry
        rw [List.length_append, hlength]
        omega
      · intro entry hentry
        have hlt : entry.1 < front.length := hlength ▸ hbelow entry hentry
        have hkept := h.full entry (hsublist.mem hentry)
        rw [helements, List.getElem?_append_left hlt] at hkept
        rw [List.getElem?_append_left hlt]
        exact hkept
      · intro entry hentry
        have hlt : entry.1 < front.length := hlength ▸ hbelow entry hentry
        have hkept := h.behind entry (hsublist.mem hentry)
        rw [helements, List.getElem?_append_left hlt,
          List.take_append_of_le_length (Nat.le_of_lt hlt)] at hkept
        rw [List.getElem?_append_left hlt, List.take_append_of_le_length (Nat.le_of_lt hlt)]
        exact hkept

theorem OpenElements.IsNested.steps (h : state.IsNested first) (htags : TagsWithin last first tags) :
    (tags.foldl OpenElements.step state).IsNested last := by
  induction htags generalizing state with
  | nil hle => exact h.widen hle
  | @cons first middle tag tags htag _ ih =>
      refine ih ?_
      cases tag with
      | opening element => exact h.opened htag
      | closing name tag => exact h.closing name htag

/-! ### The elements of markup -/

/-- **How the elements of markup nest.** -/
theorem nested_ofMarkup (source : String) :
    (Element.ofMarkup source).Pairwise Element.Nests ∧
      ∀ element ∈ Element.ofMarkup source,
        element.IsWithin 0 (utf8Length source.toList) ∧
          (∀ tag ∈ element.close, tag.IsWithin element.span.stop (utf8Length source.toList)) ∧
            (element.isEmpty = true → element.close = none) := by
  have htags := within_markupTags (Cursor.isIn_start source.toList)
  have hstate := (isNested_start 0).steps htags
  exact ⟨hstate.nests, fun element hmem =>
    ⟨hstate.within element hmem, hstate.closed element hmem, hstate.empty element hmem⟩⟩

end Nesting

end ComponentTags
