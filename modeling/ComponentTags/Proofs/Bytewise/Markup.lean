import ComponentTags.Proofs.Bytewise.Agreement

/-!
Markup byte by byte. In markup no attribute holds an expression, so no character is ever cut; and each
index in the stack of open elements is that of an element of the name that the tag opened.
-/

namespace ComponentTags.Bytewise

/-- Past the raw text inside an element of that name, which is in lower case. -/
def skipRawText (source : List Char) (name : String) (pos : Nat) : Checked Nat := do
  let rest ← slice source pos (utf8Length source)
  let lowered := rest.map Char.toLower
  pure (pos + utf8Length (lowered.take (lengthBefore ('<' :: '/' :: name.toList) lowered)))

/-- The innermost open element of a name, with those around it. -/
def innermost? (nodes : List Element) (name : String) :
    List Nat → Checked (Option (Nat × List Nat))
  | [] => pure none
  | index :: outer => do
      let node ← item nodes index
      if node.name = name then pure (some (index, outer)) else innermost? nodes name outer

/-- The tags of markup; the elements at those indices are open, the innermost one first. -/
def markup (source : Bytewise) (stack : List Nat) (parser : Parser) : Checked Parser :=
  let pos := parser.pos
  match peek source pos with
  | none => pure parser
  | some x =>
      if x = '<' then do
        let rest ← part (signs source) pos (utf8Length source)
        if "<!--".toList.isPrefixOf rest then
          let next ← skipPast "-->".toList source pos
          source |>.markup stack { parser with pos := next }
        else if peek source (pos + 1) = some '!' ∨ peek source (pos + 1) = some '?' then
          let next ← skipPast ['>'] source pos
          source |>.markup stack { parser with pos := next }
        else if peek source (pos + 1) = some '/' then
          let (tag, next) ← closingTag source pos
          let name ← slice source tag.nameSpan.start tag.nameSpan.stop
          match ← innermost? parser.nodes (String.ofList name) stack with
          | none => source |>.markup stack { parser with pos := next }
          | some (index, outer) =>
              let nodes ← update parser.nodes index fun node => { node with close := some tag }
              source |>.markup outer { pos := next, nodes }
        else if (peek source (pos + 1)).any Lexical.isNameStart then
          let (index, parser) ←
            openingTag source .markup stack.length pos { parser with pos := bump source pos }
          let node ← item parser.nodes index
          if node.isEmpty then
            source |>.markup stack parser
          else if rawTextElementNames.contains (Ascii.lower node.name) then
            let next ← skipRawText source (Ascii.lower node.name) parser.pos
            source |>.markup (index :: stack) { parser with pos := next }
          else
            source |>.markup (index :: stack) parser
        else
          source |>.markup stack { parser with pos := bump source pos }
      else if x = '{' ∧ peek source (pos + 1) = some '{' then do
        let next ← skipPast ['}', '}'] source pos
        source |>.markup stack { parser with pos := next }
      else
        source |>.markup stack { parser with pos := bump source pos }
partial_fixpoint

/-- The elements of markup. -/
def ofMarkup (source : List Char) : Checked (List Element) := do
  let parser ← markup source [] { pos := 0, nodes := [] }
  pure parser.nodes

/-- A reading that finds no element and cuts no character. -/
structure IsQuiet {α : Type} (reading : Reading α) : Prop where
  elements : reading.elements = []
  severed : reading.severed = false

/-- A tag of markup is read quietly, and but for its depth it is read the same at any depth. -/
def ReadsQuietly : {α : Type} → Task α → Cursor → Reading α → Prop
  | _, .openingTag .markup _ start, c, reading => IsQuiet reading ∧ ∀ depth,
      Reads (.openingTag .markup depth start) c
        { reading with value := { reading.value with depth } }
  | _, .tagBody .markup _ attrsEnd, c, reading => IsQuiet reading ∧ ∀ depth,
      Reads (.tagBody .markup depth attrsEnd) c reading
  | _, .attributeValue .markup _, c, reading => IsQuiet reading ∧ ∀ depth,
      Reads (.attributeValue .markup depth) c reading
  | _, _, _, _ => True

section Markup

variable {source rest : List Char} {stack : List Nat} {pos : Nat} {nodes : List Element} {x ch : Char}
  {c : Cursor}

/-! ### Branches -/

theorem markup_end (h : peek source pos = none) :
    markup source stack ⟨pos, nodes⟩ = pure ⟨pos, nodes⟩ := by
  rw [markup, h]

theorem markup_comment (h : peek source pos = some '<')
    (hrest : part (signs source) pos (utf8Length source) = pure rest)
    (hcomment : "<!--".toList.isPrefixOf rest = true) :
    markup source stack ⟨pos, nodes⟩ = (do
      let next ← skipPast "-->".toList source pos
      markup source stack ⟨next, nodes⟩) := by
  rw [markup]
  simp only [h, hrest, hcomment, pure_bind, if_true]

section Tags

variable (h : peek source pos = some '<')
  (hrest : part (signs source) pos (utf8Length source) = pure rest)
  (hcomment : "<!--".toList.isPrefixOf rest = false)

include h hrest hcomment

theorem markup_declaration
    (hnext : peek source (pos + 1) = some '!' ∨ peek source (pos + 1) = some '?') :
    markup source stack ⟨pos, nodes⟩ = (do
      let next ← skipPast ['>'] source pos
      markup source stack ⟨next, nodes⟩) := by
  rw [markup]
  simp only [h, hrest, hcomment, hnext, pure_bind, Bool.false_eq_true, if_false, if_true]

theorem markup_closing (hnext : peek source (pos + 1) = some '/') :
    markup source stack ⟨pos, nodes⟩ = (do
      let (tag, next) ← closingTag source pos
      let name ← slice source tag.nameSpan.start tag.nameSpan.stop
      match ← innermost? nodes (String.ofList name) stack with
      | none => markup source stack ⟨next, nodes⟩
      | some (index, outer) =>
          let nodes ← update nodes index fun node => { node with close := some tag }
          markup source outer ⟨next, nodes⟩) := by
  rw [markup]
  simp only [h, hrest, hcomment, hnext, pure_bind, Bool.false_eq_true, Option.some.injEq,
    Char.reduceEq, or_self, if_false, if_true]

theorem markup_opening (hnext : peek source (pos + 1) = some x)
    (hname : Lexical.isNameStart x = true) :
    markup source stack ⟨pos, nodes⟩ = (do
      let (index, parser) ←
        openingTag source .markup stack.length pos ⟨bump source pos, nodes⟩
      let node ← item parser.nodes index
      if node.isEmpty then
        markup source stack parser
      else if rawTextElementNames.contains (Ascii.lower node.name) then
        let next ← skipRawText source (Ascii.lower node.name) parser.pos
        markup source (index :: stack) { parser with pos := next }
      else
        markup source (index :: stack) parser) := by
  have hne : ∀ y, Lexical.isNameStart y = false → x ≠ y := by
    rintro y hy rfl
    exact Bool.false_ne_true (hy.symm.trans hname)
  rw [markup]
  simp only [h, hrest, hcomment, hnext, hname, hne '!' rfl, hne '?' rfl, hne '/' rfl, pure_bind,
    Bool.false_eq_true, Option.some.injEq, Option.any_some, or_self, if_false, if_true]

theorem markup_less (hbang : peek source (pos + 1) ≠ some '!')
    (hquestion : peek source (pos + 1) ≠ some '?') (hslash : peek source (pos + 1) ≠ some '/')
    (hname : (peek source (pos + 1)).any Lexical.isNameStart = false) :
    markup source stack ⟨pos, nodes⟩ = markup source stack ⟨bump source pos, nodes⟩ := by
  rw [markup]
  simp only [h, hrest, hcomment, hbang, hquestion, hslash, hname, pure_bind, Bool.false_eq_true,
    or_self, if_false, if_true]

end Tags

theorem markup_interpolation (h : peek source pos = some '{')
    (hnext : peek source (pos + 1) = some '{') :
    markup source stack ⟨pos, nodes⟩ = (do
      let next ← skipPast ['}', '}'] source pos
      markup source stack ⟨next, nodes⟩) := by
  rw [markup]
  simp only [h, hnext, Char.reduceEq, and_self, if_false, if_true]

theorem markup_plain (h : peek source pos = some x) (hless : x ≠ '<')
    (hinterpolation : ¬(x = '{' ∧ peek source (pos + 1) = some '{')) :
    markup source stack ⟨pos, nodes⟩ = markup source stack ⟨bump source pos, nodes⟩ := by
  rw [markup]
  simp only [h, hless, hinterpolation, if_false]

/-! ### Opening tags -/

theorem isQuiet_found {α : Type} (value : α) (next : Cursor) : IsQuiet (.found value next) :=
  ⟨rfl, rfl⟩

theorem readsQuietly {α : Type} {task : Task α} {reading : Reading α}
    (hreads : Reads task c reading) : ReadsQuietly task c reading := by
  induction hreads with
  | @openingTag style _ _ _ _ _ hname _ ih =>
      cases style with
      | code => trivial
      | markup => exact ⟨⟨ih.1.elements, ih.1.severed⟩, fun depth => .openingTag hname (ih.2 depth)⟩
  | @bodyEnd style _ _ _ _ hhere hrest =>
      cases style with
      | code => trivial
      | markup => exact ⟨isQuiet_found _ _, fun depth => .bodyEnd hhere hrest⟩
  | @bodySelfClose style _ _ _ _ _ hhere hrest =>
      cases style with
      | code => trivial
      | markup => exact ⟨isQuiet_found _ _, fun depth => .bodySelfClose hhere hrest⟩
  | @bodyClose style _ _ _ _ _ hhere hrest =>
      cases style with
      | code => trivial
      | markup => exact ⟨isQuiet_found _ _, fun depth => .bodyClose hhere hrest⟩
  | @bodyAttribute style _ _ _ _ _ _ _ _ _ hhere hrest hnamed hname _ _ ihvalue ihbody =>
      cases style with
      | code => trivial
      | markup =>
          obtain ⟨hvalue, hvalues⟩ := ihvalue
          obtain ⟨hbody, hbodies⟩ := ihbody
          refine ⟨⟨?_, ?_⟩, fun depth =>
            .bodyAttribute hhere hrest hnamed hname (hvalues depth) (hbodies depth)⟩
          · simp [Reading.andThen, Reading.map, hvalue.elements, hbody.elements]
          · simp [Reading.andThen, Reading.map, hvalue.severed, hbody.severed]
  | @bodySkip style _ _ _ _ _ _ _ hhere hrest hslash hclose hspread hnamed _ ih =>
      cases style with
      | code => trivial
      | markup =>
          exact ⟨ih.1, fun depth =>
            .bodySkip hhere hrest hslash hclose hspread hnamed (ih.2 depth)⟩
  | @valueNone style _ _ hequals =>
      cases style with
      | code => trivial
      | markup => exact ⟨isQuiet_found _ _, fun depth => .valueNone hequals⟩
  | @valueMissing style _ _ _ hequals hhere hrest =>
      cases style with
      | code => trivial
      | markup => exact ⟨isQuiet_found _ _, fun depth => .valueMissing hequals hhere hrest⟩
  | @valueQuoted style _ _ _ _ _ hequals hhere hrest hquote =>
      cases style with
      | code => trivial
      | markup => exact ⟨isQuiet_found _ _, fun depth => .valueQuoted hequals hhere hrest hquote⟩
  | @valueUnquoted style _ _ _ _ _ hequals hhere hrest hquote hexpression =>
      cases style with
      | code => trivial
      | markup =>
          exact ⟨isQuiet_found _ _, fun depth =>
            .valueUnquoted hequals hhere hrest hquote hexpression⟩
  | _ => trivial

/-- An opening tag is added to the elements, at any depth. -/
theorem openingTag_markup (hin : c.IsIn source) (depth start : Nat) (nodes : List Element) :
    let opening := (readOpeningTag .markup 0 start c).val
    openingTag source .markup depth start ⟨c.offset, nodes⟩ =
      pure (nodes.length, ⟨opening.next.offset, nodes ++ [{ opening.value with depth }]⟩) := by
  obtain ⟨hquiet, hreads⟩ := readsQuietly (reads_readOpeningTag .markup 0 start c)
  rw [(agrees (hreads depth) hin).2 nodes, outcome, hquiet.severed, hquiet.elements]
  rfl

theorem markup_passes (stack : List Nat) (nodes : List Element) :
    PassesBeyond source fun pos => markup source stack ⟨pos, nodes⟩ :=
  fun _ _ hx hbeyond =>
    markup_plain hx (ne_of_beyond hbeyond rfl) fun h => ne_of_beyond hbeyond rfl h.1

/-! ### Pairing -/

theorem innermost?_eq (state : OpenElements) (hstate : state.AllStand source) (name : String) :
    innermost? state.elements.toList name (state.openNames.map Prod.fst) =
      pure (match state.openNames.dropWhile (·.2 != name) with
        | [] => none
        | (index, _) :: outer => some (index, outer.map Prod.fst)) := by
  have hnamed := hstate.named
  generalize state.openNames = entries at hnamed
  induction entries with
  | nil => rfl
  | cons entry entries ih =>
      obtain ⟨hentry, hentries⟩ := List.forall_mem_cons.1 hnamed
      obtain ⟨node, hnode, hname⟩ := Option.map_eq_some_iff.1 hentry
      rw [List.map_cons, innermost?, item, hnode]
      dsimp only
      rw [pure_bind, hname, List.dropWhile_cons]
      by_cases hsame : entry.2 = name
      · rw [if_pos hsame, if_neg (by simp [hsame])]
      · rw [if_neg hsame, if_pos (by simp [hsame]), ih hentries]

theorem markup_offset_closing (hin : c.IsIn source) (hrest : c.rest = '<' :: '/' :: rest)
    (state : OpenElements) (hstate : state.AllStand source) :
    let closing := ComponentTags.closingTag c
    let state' := state.closed closing.value.1 closing.value.2
    markup source (state.openNames.map Prod.fst) ⟨c.offset, state.elements.toList⟩ =
      markup source (state'.openNames.map Prod.fst) ⟨closing.next.offset, state'.elements.toList⟩ := by
  obtain ⟨name, hslice, hname⟩ := slice_closingName hin
  have hcomment : "<!--".toList.isPrefixOf (signs c.rest) = false := by
    rw [isPrefixOf_signs rfl, hrest]
    rfl
  dsimp only
  rw [markup_closing (peek_ascii hin hrest rfl) (part_rest hin) hcomment
    (peek_next_eq_some hin hrest rfl rfl), closingTag_offset hin hrest, pure_bind]
  dsimp only
  rw [hslice, pure_bind, ← hname, innermost?_eq state hstate, pure_bind, OpenElements.closed]
  cases hopen : state.openNames.dropWhile (·.2 != (ComponentTags.closingTag c).value.1) with
  | nil => rfl
  | cons entry outer =>
      have hmem : entry ∈ state.openNames :=
        (hopen ▸ List.dropWhile_suffix _ : entry :: outer <:+ state.openNames).subset
          List.mem_cons_self
      obtain ⟨node, hnode, -⟩ := Option.map_eq_some_iff.1 (hstate.named entry hmem)
      dsimp only
      rw [update, if_pos (List.getElem?_eq_some_iff.1 hnode).1, pure_bind, Array.toList_modify]

theorem utf8Length_lowered (text : List Char) :
    utf8Length (text.map Char.toLower) = utf8Length text := by
  induction text with
  | nil => rfl
  | cons ch text ih => rw [List.map_cons, utf8Length, utf8Length, ih, utf8Size_toLower]

theorem skipRawText_offset (hin : c.IsIn source) (name : String) :
    skipRawText source (Ascii.lower name) c.offset =
      pure (c.drop (rawTextLength name c.rest)).offset := by
  rw [skipRawText, slice_rest hin, pure_bind, Cursor.offset_drop, ← utf8Length_lowered,
    List.map_take]
  rfl

theorem not_comment (hne : ∀ rest', rest ≠ '!' :: '-' :: '-' :: rest') (hrest : c.rest = '<' :: rest) :
    "<!--".toList.isPrefixOf (signs c.rest) = false := by
  rw [isPrefixOf_signs rfl, hrest]
  refine isPrefixOf_eq_false ?_
  rintro ⟨rest', heq⟩
  exact hne rest' (List.cons.inj heq).2.symm

/-- The state once a tag is read that opens an element. -/
theorem markup_offset_opening (hin : c.IsIn source) (hrest : c.rest = '<' :: ch :: rest)
    (hname : Lexical.isNameStart ch = true) (state : OpenElements) :
    let opening := (readOpeningTag .markup 0 c.offset c.advance).val
    let state' := state.opened opening.value
    markup source (state.openNames.map Prod.fst) ⟨c.offset, state.elements.toList⟩ =
      markup source (state'.openNames.map Prod.fst)
        ⟨(opening.next.skipRawText opening.value).offset, state'.elements.toList⟩ := by
  have hne : ∀ y, Lexical.isNameStart y = false → ch ≠ y := by
    rintro y hy rfl
    exact Bool.false_ne_true (hy.symm.trans hname)
  have hbang : ∀ rest', ch :: rest ≠ '!' :: '-' :: '-' :: rest' :=
    fun _ heq => hne '!' rfl (List.cons.inj heq).1
  have hcomment := not_comment hbang hrest
  have hnext : peek source (c.offset + 1) = some (lead ch) := by rw [peek_next hin hrest rfl]; rfl
  have hopening := openingTag_markup hin.advance state.openNames.length c.offset state.elements.toList
  have hafter := (reads_readOpeningTag .markup 0 c.offset c.advance).isIn hin.advance
  dsimp only at hopening ⊢
  rw [markup_opening (peek_ascii hin hrest rfl) (part_rest hin) hcomment hnext
    ((isUniform_isNameStart.apply_lead ch).trans hname), List.length_map, bump_of_ascii hin hrest rfl,
    hopening, pure_bind]
  dsimp only
  generalize (readOpeningTag .markup 0 c.offset c.advance).val = opening at *
  rw [item_append, pure_bind, toList_opened, Cursor.skipRawText]
  have hsame : { opening.value with depth := state.openNames.length }.isEmpty =
      opening.value.isEmpty := rfl
  rw [hsame, skipRawText_offset hafter, pure_bind, OpenElements.opened, Array.length_toList]
  cases opening.value.isEmpty with
  | true => rfl
  | false =>
      rw [if_neg Bool.false_ne_true, Bool.not_false, Bool.true_and]
      dsimp only
      split <;> rfl

/-- **Markup.** The tags are found byte by byte as they are by characters. -/
theorem markup_offset (hin : c.IsIn source) (state : OpenElements) (hstate : state.AllStand source) :
    markup source (state.openNames.map Prod.fst) ⟨c.offset, state.elements.toList⟩ =
      pure ⟨utf8Length source, ((markupTags c).foldl OpenElements.step state).elements.toList⟩ := by
  fun_induction markupTags c generalizing state with
  | case1 c hrest =>
      have hsize := hin.size_eq
      rw [hrest, utf8Length, Nat.add_zero] at hsize
      rw [markup_end (peek_end hin hrest), hsize]
      rfl
  | case2 c _ hrest _ ih =>
      rw [markup_comment (peek_ascii hin hrest rfl) (part_rest hin), skipPast_offset _ hin, pure_bind,
        ih (hin.drop _) state hstate]
      rw [isPrefixOf_signs rfl, hrest]
      rfl
  | case3 c tail hno hrest _ ih =>
      have hcomment := not_comment (fun rest' heq => hno rest' (List.cons.inj heq).2) hrest
      rw [markup_declaration (peek_ascii hin hrest rfl) (part_rest hin) hcomment
        (.inl (peek_next_eq_some hin hrest rfl rfl)), skipPast_offset _ hin, pure_bind,
        ih (hin.drop _) state hstate]
  | case4 c tail hrest _ ih =>
      have hcomment := not_comment (by simp) hrest
      rw [markup_declaration (peek_ascii hin hrest rfl) (part_rest hin) hcomment
        (.inr (peek_next_eq_some hin hrest rfl rfl)), skipPast_offset _ hin, pure_bind,
        ih (hin.drop _) state hstate]
  | case5 c _ hrest _ ih =>
      obtain ⟨hstands, -, hnext⟩ := stands_closingTag hin hrest
      rw [markup_offset_closing hin hrest state hstate, ih hnext _ (hstate.closed hstands)]
      rfl
  | case6 c _ _ _ _ _ _ hrest hname opening _ hread _ ih =>
      have hstands := stands_readOpeningTag hin hrest
      have hnext := (reads_readOpeningTag .markup 0 c.offset c.advance).isIn hin.advance
      have hstep := markup_offset_opening hin hrest hname state
      rw [hread] at hstands hnext hstep
      dsimp only at hstep
      rw [hstep, ih (hnext.skipRawText opening.value).1 _ (hstate.opened hstands)]
      rfl
  | case7 c ch tail _ hbang hquestion hslash hrest hname ih =>
      have hcomment := not_comment (fun _ heq => hbang (List.cons.inj heq).1) hrest
      have hnext : ∀ y, Ascii.isAscii y = true → ch ≠ y → peek source (c.offset + 1) ≠ some y :=
        fun y hy hne => peek_next_ne_some hin hrest rfl hy fun _ heq => hne (List.cons.inj heq).1
      rw [markup_less (peek_ascii hin hrest rfl) (part_rest hin) hcomment (hnext _ rfl hbang)
        (hnext _ rfl hquestion) (hnext _ rfl hslash), bump_of_ascii hin hrest rfl,
        ih hin.advance state hstate]
      rw [peek_next hin hrest rfl, isUniform_isNameStart.any_lead]
      exact Bool.eq_false_iff.2 hname
  | case8 c _ hrest _ ih =>
      rw [markup_interpolation (peek_ascii hin hrest rfl) (peek_next_eq_some hin hrest rfl rfl),
        skipPast_offset _ hin, pure_bind, ih (hin.drop _) state hstate]
  | case9 c ch tail _ _ _ _ hopening hinterpolation hrest ih =>
      by_cases hless : ch = '<'
      · obtain rfl : tail = [] := by
          cases tail with
          | nil => rfl
          | cons next tail => exact (hopening next tail hless rfl).elim
        subst hless
        have hcomment := not_comment (by simp) hrest
        have hnext : peek source (c.offset + 1) = none := by rw [peek_next hin hrest rfl]; rfl
        have hno : ∀ y, peek source (c.offset + 1) ≠ some y := fun y heq =>
          Option.some_ne_none y (heq.symm.trans hnext)
        rw [markup_less (peek_ascii hin hrest rfl) (part_rest hin) hcomment (hno _) (hno _) (hno _)
          (by rw [hnext]; rfl), bump_of_ascii hin hrest rfl, ih hin.advance state hstate]
      · rw [markup_plain (peek_cons hin hrest) (mt (lead_eq_iff rfl).1 hless)]
        · exact ((markup_passes _ _).bump hin).trans (ih hin.advance state hstate)
        · rintro ⟨hbrace, hnext⟩
          obtain rfl := (lead_eq_iff rfl).1 hbrace
          exact peek_next_ne_some hin hrest rfl rfl (fun rest' => hinterpolation rest' rfl) hnext

theorem ofMarkup_eq (source : String) :
    ofMarkup source.toList = pure (Element.ofMarkup source) := by
  have hstate : (OpenElements.mk #[] []).AllStand source.toList := ⟨nofun, nofun⟩
  have hmarkup := markup_offset (Cursor.isIn_start source.toList) _ hstate
  exact congrArg (· >>= fun parser => pure parser.nodes) hmarkup

end Markup

end ComponentTags.Bytewise
