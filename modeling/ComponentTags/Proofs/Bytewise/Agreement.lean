import ComponentTags.Proofs.Bytewise.Readers
import ComponentTags.Proofs.Element.Determinacy

/-!
Reading byte by byte gives what reading by characters gives.
-/

namespace ComponentTags.Bytewise

/-- What a reading comes to when it is checked: a value, unless a character is cut. -/
def outcome {α β : Type} (reading : Reading α) (value : β) : Checked β :=
  if reading.severed then throw .insideCharacter else pure value

/-- What a result comes to when it is checked. -/
def checked {α : Type} : Except SeveredCharacter α → Checked α
  | .ok value => pure value
  | .error _ => throw .insideCharacter

/-- A byte by byte reader agrees with a reading, wherever in the list of elements it puts them. -/
def Agrees (source : List Char) : {α : Type} → Task α → Cursor → Reading α → Prop
  | _, .code inBraces openBraces depth, c, reading => ∀ nodes,
      code source inBraces openBraces depth ⟨c.offset, nodes⟩ =
        outcome reading ⟨reading.next.offset, nodes ++ reading.elements⟩
  | _, .template depth, c, reading => ∀ nodes,
      template source depth ⟨c.offset, nodes⟩ =
        outcome reading ⟨reading.next.offset, nodes ++ reading.elements⟩
  | _, .element depth start, c, reading => ∀ nodes,
      element source depth start ⟨c.offset, nodes⟩ =
        outcome reading ⟨reading.next.offset, nodes ++ reading.elements⟩
  | _, .children depth, c, reading => ∀ front node back, node.close = none →
      children source front.length depth ⟨c.offset, front ++ node :: back⟩ =
        outcome reading ⟨reading.next.offset,
          front ++ { node with close := reading.value } :: (back ++ reading.elements)⟩
  | _, .openingTag style depth start, c, reading => reading.value.close = none ∧ ∀ nodes,
      openingTag source style depth start ⟨c.offset, nodes⟩ =
        outcome reading
          (nodes.length, ⟨reading.next.offset, nodes ++ reading.value :: reading.elements⟩)
  | _, .tagBody style depth attrsEnd, c, reading => ∀ front node back,
      node.attrsEnd = attrsEnd → node.selfClosing = false →
      tagBody source style depth front.length ⟨c.offset, front ++ node :: back⟩ =
        outcome reading ⟨reading.next.offset, front ++
          { node with
            attributes := node.attributes ++ reading.value.attributes
            attrsEnd := reading.value.attrsEnd
            selfClosing := reading.value.selfClosing } :: (back ++ reading.elements)⟩
  | _, .attributeValue style depth, c, reading => ∀ nodes,
      attributeValue source style depth ⟨c.offset, nodes⟩ =
        outcome reading (reading.value, ⟨reading.next.offset, nodes ++ reading.elements⟩)

section Agreement

variable {source rest : List Char} {ch x quote : Char} {c : Cursor} {α β γ δ : Type}

theorem outcome_bind_check {first : Reading α} {result : Reading β} {severed : Bool} {v : γ} {w : δ}
    {next : γ → Checked δ} (hsevered : result.severed = (first.severed || severed))
    (h : next v = if severed then throw .insideCharacter else pure w) :
    outcome first v >>= next = outcome result w := by
  rw [outcome, outcome, hsevered]
  cases hfirst : first.severed with
  | true => rfl
  | false => rw [if_neg Bool.false_ne_true, pure_bind, h, Bool.false_or]

theorem outcome_bind {first : Reading α} {second : Reading β} {v : γ} {w : δ}
    {next : γ → Checked δ} (h : next v = outcome second w) :
    outcome first v >>= next = outcome (first.andThen second) w :=
  outcome_bind_check rfl h

theorem outcome_bind_pure {first : Reading α} {result : Reading β} {v : γ} {w : δ}
    {next : γ → Checked δ} (hsevered : result.severed = first.severed) (h : next v = pure w) :
    outcome first v >>= next = outcome result w :=
  outcome_bind_check (hsevered.trans (Bool.or_false _).symm) h

theorem outcome_found (value : α) (next : Cursor) (w : β) :
    outcome (.found value next) w = pure w :=
  rfl

theorem code_passes (inBraces : Bool) (openBraces depth : Nat) (nodes : List Element) :
    PassesBeyond source fun pos => code source inBraces openBraces depth ⟨pos, nodes⟩ := by
  intro offset x hx hbeyond
  have hslash : x ≠ '/' := ne_of_beyond hbeyond rfl
  exact code_other hx (notMem_of_beyond hbeyond (by decide)) (fun h => hslash h.1) fun h => hslash h.1

theorem template_passes (depth : Nat) (nodes : List Element) :
    PassesBeyond source fun pos => template source depth ⟨pos, nodes⟩ := by
  intro offset x hx hbeyond
  exact template_plain hx (notMem_of_beyond hbeyond (by decide)) fun h => ne_of_beyond hbeyond rfl h.1

theorem children_passes (parent depth : Nat) (nodes : List Element) :
    PassesBeyond source fun pos => children source parent depth ⟨pos, nodes⟩ := by
  intro offset x hx hbeyond
  have hless : x ≠ '<' := ne_of_beyond hbeyond rfl
  exact children_plain hx (ne_of_beyond hbeyond rfl) (fun h => hless h.1) fun h => hless h.1

/-- A comment, a string or another character of code is passed over. -/
theorem code_plain (inBraces : Bool) (openBraces depth : Nat) (nodes : List Element)
    (hin : c.IsIn source) (hrest : c.rest = ch :: rest) (hplain : ch ∉ ['\x60', '{', '}', '<']) :
    code source inBraces openBraces depth ⟨c.offset, nodes⟩ =
      code source inBraces openBraces depth
        ⟨(c.drop (Lexical.plainLength (ch :: rest))).offset, nodes⟩ := by
  generalize htext : ch :: rest = text at *
  fun_cases Lexical.plainLength text with
  | case1 => cases htext
  | case2 rest =>
      rw [code_line (peek_ascii hin hrest rfl) (peek_next_eq_some hin hrest rfl rfl),
        skipPast_offset _ hin, pure_bind, hrest]
      rfl
  | case3 rest =>
      have htwo : (c.drop 2).rest = rest := by rw [Cursor.rest_drop, hrest]; rfl
      rw [code_block (peek_ascii hin hrest rfl) (peek_next_eq_some hin hrest rfl rfl),
        bump_twice hin hrest rfl rfl, skipPast_offset _ (hin.drop 2), pure_bind, htwo]
      rfl
  | case4 rest =>
      have hnext : c.advance.rest = rest := by rw [Cursor.advance_of_rest hrest]
      rw [code_string (peek_ascii hin hrest rfl) (.inl rfl), bump_of_ascii hin hrest rfl,
        skipString_offset rfl hin.advance, pure_bind, hnext]
      rfl
  | case5 rest =>
      have hnext : c.advance.rest = rest := by rw [Cursor.advance_of_rest hrest]
      rw [code_string (peek_ascii hin hrest rfl) (.inr rfl), bump_of_ascii hin hrest rfl,
        skipString_offset rfl hin.advance, pure_bind, hnext]
      rfl
  | case6 head tail hline hblock hsingle hdouble =>
      obtain ⟨rfl, rfl⟩ := List.cons.inj htext
      rw [code_other (peek_cons hin hrest)]
      · exact (code_passes _ _ _ _).bump hin
      · rw [lead_mem_iff rfl]
        simp only [List.mem_cons, List.not_mem_nil, or_false, not_or] at hplain ⊢
        exact ⟨hplain.1, hplain.2.1, hplain.2.2.1, hplain.2.2.2, hsingle, hdouble⟩
      · rintro ⟨hslash, hnext⟩
        obtain rfl := (lead_eq_iff rfl).1 hslash
        exact peek_next_ne_some hin hrest rfl rfl (fun rest' => hline rest' rfl) hnext
      · rintro ⟨hslash, hnext⟩
        obtain rfl := (lead_eq_iff rfl).1 hslash
        exact peek_next_ne_some hin hrest rfl rfl (fun rest' => hblock rest' rfl) hnext

/-- **Readers agree.** Each reader does byte by byte what it does by characters. -/
theorem agrees {task : Task α} {reading : Reading α} (hreads : Reads task c reading)
    (hin : c.IsIn source) : Agrees source task c reading := by
  induction hreads with
  | codeEnd hrest =>
      intro nodes
      rw [code_end (peek_end hin hrest), outcome_found]
      simp [Reading.found]
  | codeTemplate hrest htemplate _ ihtemplate ihcode =>
      intro nodes
      rw [code_template (peek_ascii hin hrest rfl), bump_of_ascii hin hrest rfl,
        ihtemplate hin.advance]
      exact outcome_bind ((ihcode (htemplate.isIn hin.advance) _).trans (by rw [List.append_assoc]; rfl))
  | codeOpen hrest _ ih =>
      intro nodes
      rw [code_open (peek_ascii hin hrest rfl), bump_of_ascii hin hrest rfl, ih hin.advance]
  | codeLeave hrest =>
      intro nodes
      rw [code_close (peek_ascii hin hrest rfl), if_pos ⟨rfl, rfl⟩, bump_of_ascii hin hrest rfl,
        outcome_found]
      simp [Reading.found]
  | codeClose hrest hstays _ ih =>
      intro nodes
      rw [code_close (peek_ascii hin hrest rfl), if_neg hstays, bump_of_ascii hin hrest rfl,
        ih hin.advance]
  | codeElement hrest hopens helement _ ihelement ihcode =>
      intro nodes
      rw [opensElement] at hopens
      rw [code_angle (peek_ascii hin hrest rfl) (operandFollows_offset hin)
        (typeParametersFollow_offset hin hrest), elementFollows_offset hin hrest, if_pos hopens,
        bump_of_ascii hin hrest rfl, ihelement hin.advance]
      exact outcome_bind ((ihcode (helement.isIn hin.advance) _).trans (by rw [List.append_assoc]; rfl))
  | codeLess hrest hopens _ ih =>
      intro nodes
      rw [opensElement] at hopens
      rw [code_angle (peek_ascii hin hrest rfl) (operandFollows_offset hin)
        (typeParametersFollow_offset hin hrest), elementFollows_offset hin hrest,
        if_neg (Bool.eq_false_iff.1 hopens), bump_of_ascii hin hrest rfl, ih hin.advance]
  | codePlain hrest hplain _ ih =>
      intro nodes
      rw [code_plain _ _ _ _ hin hrest hplain, ih (hin.drop _)]
  | templateEnd hrest =>
      intro nodes
      rw [template_end (peek_end hin hrest), outcome_found]
      simp [Reading.found]
  | templateClose hrest =>
      intro nodes
      rw [template_close (peek_ascii hin hrest rfl), bump_of_ascii hin hrest rfl, outcome_found]
      simp [Reading.found]
  | templateEscape hrest _ ih =>
      intro nodes
      rw [template_escape (peek_ascii hin hrest rfl), bump_of_ascii hin hrest rfl]
      exact ((template_passes _ nodes).bump hin.advance).trans (ih (hin.drop 2) nodes)
  | templateHole hrest hhole _ ihhole ihtemplate =>
      intro nodes
      rw [template_hole (peek_ascii hin hrest rfl) (peek_next_eq_some hin hrest rfl rfl), bump_twice hin hrest rfl rfl,
        ihhole (hin.drop 2)]
      exact outcome_bind
        ((ihtemplate (hhole.isIn (hin.drop 2)) _).trans (by rw [List.append_assoc]; rfl))
  | @templatePlain _ c ch rest _ hrest hplain hhole _ ih =>
      intro nodes
      rw [template_plain (peek_cons hin hrest) (mt (lead_mem_iff rfl).1 hplain)]
      · exact ((template_passes _ nodes).bump hin).trans (ih hin.advance nodes)
      · rintro ⟨hdollar, hbrace⟩
        obtain rfl := (lead_eq_iff rfl).1 hdollar
        exact peek_next_ne_some hin hrest rfl rfl (hhole rfl) hbrace
  | elementEmpty hopening hempty ih =>
      intro nodes
      obtain ⟨hopen, hreads⟩ := ih hin
      rw [element, hreads]
      refine outcome_bind_pure rfl ?_
      dsimp only
      rw [item_append, pure_bind, if_pos hempty, Reading.enclosedBy, ← hopen]
  | elementFull hopening hfull hchildren ihopening ihchildren =>
      intro nodes
      obtain ⟨hopen, hreads⟩ := ihopening hin
      rw [element, hreads]
      refine @outcome_bind _ _ _ _ (Reading.enclosedBy _ _) _ _ _ _ ?_
      dsimp only
      rw [item_append, pure_bind, hfull, if_neg Bool.false_ne_true,
        ihchildren (hopening.isIn hin) _ _ _ hopen]
      rfl
  | childrenEnd hrest =>
      intro front node back hclose
      rw [children_end (peek_end hin hrest), outcome_found]
      simp [Reading.found, ← hclose]
  | childrenHole hrest hhole _ ihhole ihchildren =>
      intro front node back hclose
      rw [children_hole (peek_ascii hin hrest rfl), bump_of_ascii hin hrest rfl, ihhole hin.advance,
        List.append_assoc, List.cons_append]
      refine outcome_bind ?_
      rw [ihchildren (hhole.isIn hin.advance) _ _ _ hclose, List.append_assoc]
      rfl
  | childrenClose hrest =>
      intro front node back hclose
      rw [children_close (peek_ascii hin hrest rfl) (peek_next_eq_some hin hrest rfl rfl),
        closingTag_offset hin hrest, pure_bind]
      dsimp only
      rw [update_append, pure_bind]
      exact congrArg (fun back => pure (Parser.mk _ (front ++ _ :: back))) (List.append_nil back).symm
  | childrenElement hrest hopens helement _ ihelement ihchildren =>
      intro front node back hclose
      have hnext := peek_next_ne_some (x := '/') hin hrest rfl rfl (by rintro rest' rfl; cases hopens)
      rw [children_element (peek_ascii hin hrest rfl) hnext
        ((elementFollows_offset hin hrest).trans hopens), bump_of_ascii hin hrest rfl,
        ihelement hin.advance, List.append_assoc, List.cons_append]
      refine outcome_bind ?_
      rw [ihchildren (helement.isIn hin.advance) _ _ _ hclose, List.append_assoc]
      rfl
  | childrenLess hrest hclosing hopens _ ih =>
      intro front node back hclose
      have hnext := peek_next_ne_some (x := '/') hin hrest rfl rfl hclosing
      rw [children_plain (peek_ascii hin hrest rfl) (by decide) (fun h => hnext h.2),
        bump_of_ascii hin hrest rfl, ih hin.advance _ _ _ hclose]
      rw [elementFollows_offset hin hrest, hopens]
      exact fun h => Bool.false_ne_true h.2
  | childrenPlain hrest hplain _ ih =>
      intro front node back hclose
      simp only [List.mem_cons, List.not_mem_nil, or_false, not_or] at hplain
      have hless := mt (lead_eq_iff rfl).1 hplain.2
      rw [children_plain (peek_cons hin hrest) (mt (lead_eq_iff rfl).1 hplain.1)
        (fun h => hless h.1) (fun h => hless h.1)]
      exact ((children_passes _ _ _).bump hin).trans (ih hin.advance _ _ _ hclose)
  | openingTag hname hbody ih =>
      subst hname
      refine ⟨rfl, fun nodes => ?_⟩
      have hafter := hin.skipWhile Lexical.isNameChar
      rw [openingTag]
      dsimp only
      rw [skipWhile_offset isUniform_isNameChar hin, slice_takeWhile hin, pure_bind,
        Cursor.skipWhile, ih hafter _ _ [] rfl rfl]
      refine outcome_bind_pure rfl ?_
      dsimp only
      rw [update_append]
      rfl
  | bodyEnd hhere hrest =>
      intro front node back hend hself
      subst hhere
      rw [tagBody_end (skipWhile_offset isUniform_isBlank hin) (peek_end (hin.skipWhile _) hrest),
        outcome_found, ← hend, ← hself]
      simp [Reading.found, TagBody.last]
  | bodySelfClose hhere hrest =>
      intro front node back hend hself
      subst hhere
      have hthere := hin.skipWhile Ascii.isBlank
      rw [tagBody_selfClose (skipWhile_offset isUniform_isBlank hin) (peek_ascii hthere hrest rfl)
        (peek_next_eq_some hthere hrest rfl rfl), update_append, pure_bind,
        bump_twice hthere hrest rfl rfl, outcome_found, ← hend]
      simp [Reading.found, TagBody.last]
  | bodyClose hhere hrest =>
      intro front node back hend hself
      subst hhere
      have hthere := hin.skipWhile Ascii.isBlank
      rw [tagBody_close (skipWhile_offset isUniform_isBlank hin) (peek_ascii hthere hrest rfl),
        bump_of_ascii hthere hrest rfl, outcome_found, ← hend, ← hself]
      simp [Reading.found, TagBody.last]
  | bodySpread hhere hrest hspread _ ihspread ihbody =>
      intro front node back hend hself
      subst hhere
      have hthere := hin.skipWhile Ascii.isBlank
      rw [tagBody_spread (skipWhile_offset isUniform_isBlank hin) (peek_ascii hthere hrest rfl),
        bump_of_ascii hthere hrest rfl, ihspread hthere.advance, List.append_assoc, List.cons_append]
      refine outcome_bind ?_
      dsimp only
      rw [update_append, pure_bind, ihbody (hspread.isIn hthere.advance), List.append_assoc]
      · rfl
      · rfl
      · exact hself
  | @bodyAttribute _ _ _ c _ ch _ _ _ _ hhere hrest hnamed hname hvalue _ ihvalue ihbody =>
      intro front node back hend hself
      subst hhere
      rw [← hrest] at hname
      subst hname
      have hthere := hin.skipWhile Ascii.isBlank
      have hafter := hthere.skipWhile Lexical.isAttributeNameChar
      have hlead := (isUniform_isAttributeNameChar.apply_lead ch).trans hnamed
      rw [tagBody_attribute (skipWhile_offset isUniform_isBlank hin) (peek_cons hthere hrest) hlead]
      dsimp only
      rw [skipWhile_offset isUniform_isAttributeNameChar hthere, slice_takeWhile hthere, pure_bind,
        Cursor.skipWhile, ihvalue hafter, List.append_assoc, List.cons_append]
      refine outcome_bind ?_
      dsimp only
      rw [update_append, pure_bind, ihbody (hvalue.isIn hafter), List.append_assoc,
          List.append_assoc]
      · rfl
      · rfl
      · exact hself
  | @bodySkip _ _ _ c _ ch _ _ hhere hrest hslash hclose hspread hnamed _ ih =>
      intro front node back hend hself
      subst hhere
      have hthere := hin.skipWhile Ascii.isBlank
      have hascii : Ascii.isAscii ch = true := by
        rw [← Bool.not_eq_false]
        intro hbeyond
        have halike : Alike ch '\x80' := .inr ⟨hbeyond, rfl⟩
        exact Bool.false_ne_true (hnamed.symm.trans (isUniform_isAttributeNameChar _ _ halike))
      rw [tagBody_skip (skipWhile_offset isUniform_isBlank hin) (peek_ascii hthere hrest hascii) ?_
        hclose hspread hnamed, bump_of_ascii hthere hrest hascii, ih hthere.advance _ _ _ hend hself]
      rintro ⟨rfl, hnext⟩
      exact peek_next_ne_some hthere hrest rfl rfl (hslash rfl) hnext
  | @valueNone _ _ c hequals =>
      intro nodes
      have hnone : peek source (c.skipWhile Ascii.isBlank).offset ≠ some '=' := by
        rw [peek_offset (hin.skipWhile _)]
        exact mt (lead_head?_eq_some_iff rfl).1 hequals
      rw [attributeValue_none (skipWhile_offset isUniform_isBlank hin) hnone, outcome_found]
      simp [Reading.found]
  | valueMissing hequals hhere hrest =>
      intro nodes
      subst hhere
      obtain ⟨hsign, hvalue⟩ := value_offset hin hequals
      have hthere := (hin.skipWhile Ascii.isBlank).advance.skipWhile Ascii.isBlank
      rw [attributeValue_missing (skipWhile_offset isUniform_isBlank hin) hsign hvalue
        (peek_end hthere hrest), outcome_found]
      simp [Reading.found]
  | @valueQuoted _ _ _ _ quote _ hequals hhere hrest hquote =>
      intro nodes
      subst hhere
      obtain ⟨hsign, hvalue⟩ := value_offset hin hequals
      have hthere := (hin.skipWhile Ascii.isBlank).advance.skipWhile Ascii.isBlank
      have hascii : Ascii.isAscii quote = true := by rcases hquote with rfl | rfl <;> rfl
      rw [attributeValue_quoted (skipWhile_offset isUniform_isBlank hin) hsign hvalue
        (peek_ascii hthere hrest hascii) hquote, bump_of_ascii hthere hrest hascii,
        quotedValue_offset hascii hthere.advance, pure_bind]
      simp [ComponentTags.quotedValue, Reading.found, outcome]
  | valueExpression hequals hhere hrest hcode ih =>
      intro nodes
      subst hhere
      obtain ⟨hsign, hvalue⟩ := value_offset hin hequals
      have hthere := (hin.skipWhile Ascii.isBlank).advance.skipWhile Ascii.isBlank
      rw [attributeValue_expression (skipWhile_offset isUniform_isBlank hin) hsign hvalue
        (peek_ascii hthere hrest rfl)]
      dsimp only
      rw [bump_of_ascii hthere hrest rfl, ih hthere.advance]
      refine outcome_bind_check rfl ?_
      rw [slice_expression hthere.advance (hcode.isIn hthere.advance) hcode.remaining_le]
      split <;> rfl
  | valueUnquoted hequals hhere hrest hquote hexpression =>
      intro nodes
      subst hhere
      obtain ⟨hsign, hvalue⟩ := value_offset hin hequals
      have hthere := (hin.skipWhile Ascii.isBlank).advance.skipWhile Ascii.isBlank
      obtain ⟨text, hread, htext⟩ := unquotedValue_offset hthere
      rw [attributeValue_unquoted (skipWhile_offset isUniform_isBlank hin) hsign hvalue
        (peek_cons hthere hrest) (hquote.imp (mt (lead_eq_iff rfl).1) (mt (lead_eq_iff rfl).1))
        (mt (And.imp_left (lead_eq_iff rfl).1) hexpression), hread, pure_bind]
      dsimp only
      rw [← htext]
      simp [ComponentTags.unquotedValue, Reading.found, outcome]

theorem ofCode_eq (source : String) : ofCode source.toList = checked (Element.ofCode source) := by
  have hcode := agrees (reads_readCode false 0 0 _) (Cursor.isIn_start source.toList) []
  change code source.toList false 0 0 ⟨0, []⟩ = _ at hcode
  rw [ofCode, hcode, Element.ofCode, outcome]
  split <;> rfl

end Agreement

end ComponentTags.Bytewise
