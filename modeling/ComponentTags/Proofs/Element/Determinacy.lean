import ComponentTags.Proofs.Element.Derivations

/-!
Readings are determined. Whatever has a derivation is what the reader reads, so a derivation for a text
tells all about reading it.
-/

namespace ComponentTags

/-- What the readers read. -/
def Task.read : {α : Type} → Task α → Cursor → Reading α
  | _, .code inBraces openBraces depth, c => (readCode inBraces openBraces depth c).val
  | _, .template depth, c => (readTemplate depth c).val
  | _, .element depth start, c => (readElement depth start c).val
  | _, .children depth, c => (readChildren depth c).val
  | _, .openingTag style depth start, c => (readOpeningTag style depth start c).val
  | _, .tagBody style depth attrsEnd, c => (readTagBody style depth attrsEnd c).val
  | _, .attributeValue style depth, c => (readAttributeValue style depth c).val

theorem Task.reads {α : Type} (task : Task α) (c : Cursor) : Reads task c (task.read c) := by
  cases task with
  | code inBraces openBraces depth => exact reads_readCode inBraces openBraces depth c
  | template depth => exact reads_readTemplate depth c
  | element depth start => exact reads_readElement depth start c
  | children depth => exact reads_readChildren depth c
  | openingTag style depth start => exact reads_readOpeningTag style depth start c
  | tagBody style depth attrsEnd => exact reads_readTagBody style depth attrsEnd c
  | attributeValue style depth => exact reads_readAttributeValue style depth c

theorem Task.remaining_read_le {α : Type} (task : Task α) (c : Cursor) :
    (task.read c).next.remaining ≤ c.remaining := by
  cases task with
  | code inBraces openBraces depth => exact (readCode inBraces openBraces depth c).property
  | template depth => exact (readTemplate depth c).property
  | element depth start => exact (readElement depth start c).property
  | children depth => exact (readChildren depth c).property
  | openingTag style depth start => exact (readOpeningTag style depth start c).property
  | tagBody style depth attrsEnd => exact (readTagBody style depth attrsEnd c).property
  | attributeValue style depth => exact (readAttributeValue style depth c).property

theorem Reads.read_eq {α : Type} {task : Task α} {c : Cursor} {reading : Reading α}
    (h : Reads task c reading) : task.read c = reading := by
  induction h with
  | codeEnd hrest =>
      change (readCode _ _ _ _).val = _
      unfold readCode
      split
      case h_1 => rfl
      all_goals simp_all
  | codeTemplate hrest _ _ ihTemplate ihCode =>
      subst ihTemplate ihCode
      change (readCode _ _ _ _).val = _
      unfold readCode
      split
      case h_2 => rfl
      all_goals simp_all
  | codeOpen hrest _ ih =>
      subst ih
      change (readCode _ _ _ _).val = _
      unfold readCode
      split
      case h_3 => rfl
      all_goals simp_all
  | codeLeave hrest =>
      change (readCode _ _ _ _).val = _
      unfold readCode
      split
      case h_4 => rfl
      all_goals simp_all
  | codeClose hrest hstays _ ih =>
      subst ih
      change (readCode _ _ _ _).val = _
      unfold readCode
      split
      case h_4 => 
        rw [if_neg (by simpa using hstays)]
        rfl
      all_goals simp_all
  | codeElement hrest hopens _ _ ihElement ihCode =>
      subst ihElement ihCode
      change (readCode _ _ _ _).val = _
      unfold readCode
      split
      case h_5 rest heq => 
        obtain rfl := (List.cons.inj (hrest.symm.trans heq)).2
        rw [opensElement] at hopens
        rw [if_pos hopens]
        rfl
      all_goals simp_all
  | codeLess hrest hopens _ ih =>
      subst ih
      change (readCode _ _ _ _).val = _
      unfold readCode
      split
      case h_5 rest heq => 
        obtain rfl := (List.cons.inj (hrest.symm.trans heq)).2
        rw [opensElement] at hopens
        rw [if_neg (Bool.eq_false_iff.1 hopens)]
        rfl
      all_goals simp_all
  | codePlain hrest hplain _ ih =>
      subst ih
      change (readCode _ _ _ _).val = _
      unfold readCode
      split
      case h_6 heq => 
        cases hrest.symm.trans heq
        rfl
      all_goals 
        rename_i heq
        cases hrest.symm.trans heq <;> simp at hplain
  | templateEnd hrest =>
      change (readTemplate _ _).val = _
      unfold readTemplate
      split
      case h_1 => rfl
      all_goals simp_all
  | templateClose hrest =>
      change (readTemplate _ _).val = _
      unfold readTemplate
      split
      case h_2 => rfl
      all_goals simp_all
  | templateEscape hrest _ ih =>
      subst ih
      change (readTemplate _ _).val = _
      unfold readTemplate
      split
      case h_3 => rfl
      all_goals simp_all
  | templateHole hrest _ _ ihHole ihTemplate =>
      subst ihHole ihTemplate
      change (readTemplate _ _).val = _
      unfold readTemplate
      split
      case h_4 => rfl
      all_goals simp_all
  | templatePlain hrest hplain hhole _ ih =>
      subst ih
      change (readTemplate _ _).val = _
      unfold readTemplate
      split
      case h_5 => rfl
      all_goals 
        rename_i heq
        cases hrest.symm.trans heq <;> simp at hplain hhole
  | elementEmpty _ hempty ih =>
      subst ih
      change (readElement _ _ _).val = _
      unfold readElement
      exact congrArg Subtype.val (if_pos hempty)
  | elementFull _ hfull _ ihOpening ihChildren =>
      subst ihOpening ihChildren
      change (readElement _ _ _).val = _
      unfold readElement
      exact congrArg Subtype.val (if_neg (Bool.eq_false_iff.1 hfull))
  | childrenEnd hrest =>
      change (readChildren _ _).val = _
      unfold readChildren
      split
      case h_1 => rfl
      all_goals simp_all
  | childrenHole hrest _ _ ihHole ihChildren =>
      subst ihHole ihChildren
      change (readChildren _ _).val = _
      unfold readChildren
      split
      case h_2 => rfl
      all_goals simp_all
  | childrenClose hrest =>
      change (readChildren _ _).val = _
      unfold readChildren
      split
      case h_3 => rfl
      all_goals simp_all
  | childrenElement hrest hopens _ _ ihElement ihChildren =>
      subst ihElement ihChildren
      change (readChildren _ _).val = _
      unfold readChildren
      split
      case h_4 rest hclose heq => 
        obtain rfl := (List.cons.inj (hrest.symm.trans heq)).2
        rw [if_pos hopens]
        rfl
      case h_3 heq =>
        cases hrest.symm.trans heq
        exact (Bool.false_ne_true hopens).elim
      all_goals simp_all
  | childrenLess hrest hclose hopens _ ih =>
      subst ih
      change (readChildren _ _).val = _
      unfold readChildren
      split
      case h_4 rest _ heq => 
        obtain rfl := (List.cons.inj (hrest.symm.trans heq)).2
        rw [if_neg (Bool.eq_false_iff.1 hopens)]
        rfl
      case h_3 heq =>
        cases hrest.symm.trans heq
        exact absurd rfl (hclose _)
      all_goals simp_all
  | childrenPlain hrest hplain _ ih =>
      subst ih
      change (readChildren _ _).val = _
      unfold readChildren
      split
      case h_5 => rfl
      all_goals 
        rename_i heq
        cases hrest.symm.trans heq <;> simp at hplain
  | openingTag hname _ ih =>
      subst hname ih
      change (readOpeningTag _ _ _ _).val = _
      unfold readOpeningTag
      rfl
  | bodyEnd hhere hrest =>
      subst hhere
      change (readTagBody _ _ _ _).val = _
      unfold readTagBody
      dsimp only
      split
      case h_1 => rfl
      all_goals simp_all
  | bodySelfClose hhere hrest =>
      subst hhere
      change (readTagBody _ _ _ _).val = _
      unfold readTagBody
      dsimp only
      split
      case h_2 => rfl
      all_goals simp_all
  | bodyClose hhere hrest =>
      subst hhere
      change (readTagBody _ _ _ _).val = _
      unfold readTagBody
      dsimp only
      split
      case h_3 => rfl
      all_goals simp_all
  | bodySpread hhere hrest _ _ ihSpread ihBody =>
      subst hhere ihSpread ihBody
      change (readTagBody _ _ _ _).val = _
      unfold readTagBody
      dsimp only
      split
      case h_4 heq =>
        cases hrest.symm.trans heq
        rw [if_pos (by simp)]
        rfl
      all_goals simp_all
  | @bodyAttribute _ _ _ _ _ ch _ _ _ _ hhere hrest hnamed hname _ _ ihValue ihBody =>
      subst hhere hname ihValue ihBody
      have hbrace : ch ≠ '{' := by
        rintro rfl
        exact absurd hnamed (by decide)
      change (readTagBody _ _ _ _).val = _
      unfold readTagBody
      dsimp only
      split
      case h_4 heq =>
        cases hrest.symm.trans heq
        rw [if_neg (by simp [hbrace]), dif_pos hnamed]
        rfl
      all_goals
        rename_i heq
        cases hrest.symm.trans heq <;> exact absurd hnamed (by decide)
  | bodySkip hhere hrest hslash hclose hspread hnamed _ ih =>
      subst hhere ih
      change (readTagBody _ _ _ _).val = _
      unfold readTagBody
      dsimp only
      split
      case h_4 heq =>
        cases hrest.symm.trans heq
        rw [if_neg (by simpa using hspread), dif_neg (by simp [hnamed])]
        rfl
      case h_2 heq =>
        cases hrest.symm.trans heq
        exact absurd rfl (hslash rfl _)
      case h_3 heq =>
        cases hrest.symm.trans heq
        exact absurd rfl hclose
      all_goals simp_all
  | valueNone hequals =>
      change (readAttributeValue _ _ _).val = _
      unfold readAttributeValue
      exact congrArg Subtype.val (if_neg hequals)
  | valueMissing hequals hhere hrest =>
      subst hhere
      change (readAttributeValue _ _ _).val = _
      unfold readAttributeValue
      dsimp only
      rw [if_pos hequals]
      split
      case h_1 => rfl
      all_goals simp_all
  | valueQuoted hequals hhere hrest hquote =>
      subst hhere
      change (readAttributeValue _ _ _).val = _
      unfold readAttributeValue
      dsimp only
      rw [if_pos hequals]
      split
      case h_2 heq =>
        cases hrest.symm.trans heq
        rw [if_pos (by simpa using hquote)]
      all_goals simp_all
  | valueExpression hequals hhere hrest _ ih =>
      subst hhere ih
      change (readAttributeValue _ _ _).val = _
      unfold readAttributeValue
      dsimp only
      rw [if_pos hequals]
      split
      case h_2 heq =>
        cases hrest.symm.trans heq
        rw [if_neg (by decide), if_pos (by simp)]
        rfl
      all_goals simp_all
  | valueUnquoted hequals hhere hrest hquote hexpression =>
      subst hhere
      change (readAttributeValue _ _ _).val = _
      unfold readAttributeValue
      dsimp only
      rw [if_pos hequals]
      split
      case h_2 heq =>
        cases hrest.symm.trans heq
        rw [if_neg (by simpa using hquote), if_neg (by simpa using hexpression)]
      all_goals simp_all

theorem Reads.remaining_le {α : Type} {task : Task α} {c : Cursor} {reading : Reading α}
    (h : Reads task c reading) : reading.next.remaining ≤ c.remaining :=
  h.read_eq ▸ task.remaining_read_le c

end ComponentTags
