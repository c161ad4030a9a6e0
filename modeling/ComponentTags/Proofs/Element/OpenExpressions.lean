import ComponentTags.Element.Code
import ComponentTags.Proofs.Element.Determinacy
import ComponentTags.Proofs.Element.Layout
import ComponentTags.Proofs.Source.Passages

/-!
Expressions that a text leaves open. Readers go from task to task; when one of them that reads for the
expression of an attribute comes to the end of the text, no brace closes that expression any more. The
byte cut off in the place of the brace is one of the last character.
-/

namespace ComponentTags

/-- Where a reader goes on: with which task, where, and whether that is into the expression of an attribute. -/
inductive Leads : {α β : Type} → Task α → Cursor → Bool → Task β → Cursor → Prop where
  | toTemplate {inBraces : Bool} {openBraces depth : Nat} {c : Cursor} {rest : List Char}
      (hrest : c.rest = '\x60' :: rest) :
      Leads (.code inBraces openBraces depth) c false (.template depth) c.advance
  | pastTemplate {inBraces : Bool} {openBraces depth : Nat} {c next : Cursor} {rest : List Char}
      (hrest : c.rest = '\x60' :: rest) (hnext : next = ((Task.template depth).read c.advance).next) :
      Leads (.code inBraces openBraces depth) c false (.code inBraces openBraces depth) next
  | pastOpen {inBraces : Bool} {openBraces depth : Nat} {c : Cursor} {rest : List Char}
      (hrest : c.rest = '{' :: rest) :
      Leads (.code inBraces openBraces depth) c false (.code inBraces (openBraces + 1) depth)
        c.advance
  | pastClose {inBraces : Bool} {openBraces depth : Nat} {c : Cursor} {rest : List Char}
      (hrest : c.rest = '}' :: rest) (hstays : ¬(openBraces = 0 ∧ inBraces = true)) :
      Leads (.code inBraces openBraces depth) c false (.code inBraces (openBraces - 1) depth)
        c.advance
  | toElement {inBraces : Bool} {openBraces depth : Nat} {c : Cursor} {rest : List Char}
      (hrest : c.rest = '<' :: rest) (hopens : opensElement c.before rest = true) :
      Leads (.code inBraces openBraces depth) c false (.element depth c.offset) c.advance
  | pastElement {inBraces : Bool} {openBraces depth : Nat} {c next : Cursor} {rest : List Char}
      (hrest : c.rest = '<' :: rest) (hopens : opensElement c.before rest = true)
      (hnext : next = ((Task.element depth c.offset).read c.advance).next) :
      Leads (.code inBraces openBraces depth) c false (.code inBraces openBraces depth) next
  | pastLess {inBraces : Bool} {openBraces depth : Nat} {c : Cursor} {rest : List Char}
      (hrest : c.rest = '<' :: rest) (hopens : opensElement c.before rest = false) :
      Leads (.code inBraces openBraces depth) c false (.code inBraces openBraces depth) c.advance
  | pastPlain {inBraces : Bool} {openBraces depth : Nat} {c : Cursor} {ch : Char}
      {rest : List Char} (hrest : c.rest = ch :: rest) (hplain : ch ∉ ['\x60', '{', '}', '<']) :
      Leads (.code inBraces openBraces depth) c false (.code inBraces openBraces depth)
        (c.drop (Lexical.plainLength (ch :: rest)))
  | pastEscape {depth : Nat} {c : Cursor} {rest : List Char} (hrest : c.rest = '\\' :: rest) :
      Leads (.template depth) c false (.template depth) (c.drop 2)
  | toTemplateHole {depth : Nat} {c : Cursor} {rest : List Char}
      (hrest : c.rest = '$' :: '{' :: rest) :
      Leads (.template depth) c false (.code true 0 depth) (c.drop 2)
  | pastTemplateHole {depth : Nat} {c next : Cursor} {rest : List Char}
      (hrest : c.rest = '$' :: '{' :: rest)
      (hnext : next = ((Task.code true 0 depth).read (c.drop 2)).next) :
      Leads (.template depth) c false (.template depth) next
  | pastTemplateText {depth : Nat} {c : Cursor} {ch : Char} {rest : List Char}
      (hrest : c.rest = ch :: rest) (hplain : ch ∉ ['\x60', '\\'])
      (hhole : ch = '$' → ∀ rest', rest ≠ '{' :: rest') :
      Leads (.template depth) c false (.template depth) c.advance
  | toOpeningTag {depth start : Nat} {c : Cursor} :
      Leads (.element depth start) c false (.openingTag .code depth start) c
  | toChildren {depth start : Nat} {c next : Cursor}
      (hfull : ((Task.openingTag .code depth start).read c).value.selfClosing = false)
      (hnext : next = ((Task.openingTag .code depth start).read c).next) :
      Leads (.element depth start) c false (.children depth) next
  | toHole {depth : Nat} {c : Cursor} {rest : List Char} (hrest : c.rest = '{' :: rest) :
      Leads (.children depth) c false (.code true 0 (depth + 1)) c.advance
  | pastHole {depth : Nat} {c next : Cursor} {rest : List Char} (hrest : c.rest = '{' :: rest)
      (hnext : next = ((Task.code true 0 (depth + 1)).read c.advance).next) :
      Leads (.children depth) c false (.children depth) next
  | toChild {depth : Nat} {c : Cursor} {rest : List Char} (hrest : c.rest = '<' :: rest)
      (hopens : Lexical.elementFollows rest = true) :
      Leads (.children depth) c false (.element (depth + 1) c.offset) c.advance
  | pastChild {depth : Nat} {c next : Cursor} {rest : List Char} (hrest : c.rest = '<' :: rest)
      (hopens : Lexical.elementFollows rest = true)
      (hnext : next = ((Task.element (depth + 1) c.offset).read c.advance).next) :
      Leads (.children depth) c false (.children depth) next
  | pastChildLess {depth : Nat} {c : Cursor} {rest : List Char} (hrest : c.rest = '<' :: rest)
      (hclose : ∀ rest', rest ≠ '/' :: rest') (hopens : Lexical.elementFollows rest = false) :
      Leads (.children depth) c false (.children depth) c.advance
  | pastChildText {depth : Nat} {c : Cursor} {ch : Char} {rest : List Char}
      (hrest : c.rest = ch :: rest) (hplain : ch ∉ ['{', '<']) :
      Leads (.children depth) c false (.children depth) c.advance
  | toTagBody {style : TagSyntax} {depth start : Nat} {c afterName : Cursor}
      (hname : afterName = c.drop (c.rest.takeWhile Lexical.isNameChar).length) :
      Leads (.openingTag style depth start) c false (.tagBody style depth afterName.offset) afterName
  | toSpread {depth attrsEnd : Nat} {c here : Cursor} {rest : List Char}
      (hhere : here = c.skipWhile Ascii.isBlank) (hrest : here.rest = '{' :: rest) :
      Leads (.tagBody .code depth attrsEnd) c false (.code true 0 (depth + 1)) here.advance
  | pastSpread {depth attrsEnd : Nat} {c here next : Cursor} {rest : List Char}
      (hhere : here = c.skipWhile Ascii.isBlank) (hrest : here.rest = '{' :: rest)
      (hnext : next = ((Task.code true 0 (depth + 1)).read here.advance).next) :
      Leads (.tagBody .code depth attrsEnd) c false (.tagBody .code depth next.offset) next
  | toValue {style : TagSyntax} {depth attrsEnd : Nat} {c here : Cursor} {ch : Char}
      {rest : List Char} (hhere : here = c.skipWhile Ascii.isBlank) (hrest : here.rest = ch :: rest)
      (hnamed : Lexical.isAttributeNameChar ch = true) :
      Leads (.tagBody style depth attrsEnd) c false (.attributeValue style depth)
        (here.skipWhile Lexical.isAttributeNameChar)
  | pastValue {style : TagSyntax} {depth attrsEnd : Nat} {c here next : Cursor} {ch : Char}
      {rest : List Char} (hhere : here = c.skipWhile Ascii.isBlank) (hrest : here.rest = ch :: rest)
      (hnamed : Lexical.isAttributeNameChar ch = true)
      (hnext : next = ((Task.attributeValue style depth).read
        (here.skipWhile Lexical.isAttributeNameChar)).next) :
      Leads (.tagBody style depth attrsEnd) c false (.tagBody style depth next.offset) next
  | pastOther {style : TagSyntax} {depth attrsEnd : Nat} {c here : Cursor} {ch : Char}
      {rest : List Char} (hhere : here = c.skipWhile Ascii.isBlank) (hrest : here.rest = ch :: rest)
      (hslash : ch = '/' → ∀ rest', rest ≠ '>' :: rest') (hclose : ch ≠ '>')
      (hspread : ¬(ch = '{' ∧ style = .code)) (hnamed : Lexical.isAttributeNameChar ch = false) :
      Leads (.tagBody style depth attrsEnd) c false (.tagBody style depth attrsEnd) here.advance
  | intoExpression {depth : Nat} {c here : Cursor} {rest : List Char}
      (hequals : (c.skipWhile Ascii.isBlank).rest.head? = some '=')
      (hhere : here = (c.skipWhile Ascii.isBlank).advance.skipWhile Ascii.isBlank)
      (hrest : here.rest = '{' :: rest) :
      Leads (.attributeValue .code depth) c true (.code true 0 (depth + 1)) here.advance

/-- Where a reader comes in the end, and whether it is inside the expression of an attribute there. -/
inductive Comes : {α β : Type} → Task α → Cursor → Bool → Task β → Cursor → Prop where
  | here {α : Type} {task : Task α} {c : Cursor} : Comes task c false task c
  | on {α β γ : Type} {task : Task α} {task' : Task β} {task'' : Task γ} {c c' c'' : Cursor}
      {enters inside : Bool} (hfirst : Leads task c enters task' c')
      (hothers : Comes task' c' inside task'' c'') : Comes task c (enters || inside) task'' c''

/-- Reading a task from a place on comes to the end of the text inside the expression of an attribute. -/
def EndsInside {α : Type} (task : Task α) (c : Cursor) : Prop :=
  ∃ (β : Type) (last : Task β) (d : Cursor), Comes task c true last d ∧ d.rest = []

/-- Reading a module of code comes to its end inside the expression of an attribute. -/
def EndsInExpression (source : List Char) : Prop :=
  EndsInside (.code false 0 0) (.start source)

/-- A text whose last character is not one of ASCII. -/
def EndsBeyondAscii (source : List Char) : Prop :=
  ∃ ch ∈ source.getLast?, Ascii.isAscii ch = false

/-! ### From the end of the text back to the start -/

/-- A reading that a part of it belongs to: it is severed if the part is, and does not end before it. -/
def Reading.Covers {α β : Type} (whole : Reading α) (part : Reading β) : Prop :=
  (part.severed = true → whole.severed = true) ∧ whole.next.remaining ≤ part.next.remaining

namespace Reading.Covers

variable {α β γ : Type} {whole : Reading α} {part first : Reading β} {second : Reading γ}

theorem refl (whole : Reading α) : whole.Covers whole :=
  ⟨id, Nat.le_refl _⟩

theorem trans (h : whole.Covers first) (h' : first.Covers second) : whole.Covers second :=
  ⟨fun hsevered => h.1 (h'.1 hsevered), Nat.le_trans h.2 h'.2⟩

theorem left (hle : second.next.remaining ≤ first.next.remaining) :
    (first.andThen second).Covers first :=
  ⟨fun hsevered => Bool.or_eq_true_iff.2 (.inl hsevered), hle⟩

theorem right (first : Reading β) (second : Reading γ) : (first.andThen second).Covers second :=
  ⟨fun hsevered => Bool.or_eq_true_iff.2 (.inr hsevered), Nat.le_refl _⟩

theorem map (f : β → γ) (part : Reading β) : (part.map f).Covers part :=
  ⟨id, Nat.le_refl _⟩

theorem enclosed (opening : Reading Element) (close : Option ClosingTag) :
    (opening.enclosedBy close).Covers opening :=
  ⟨id, Nat.le_refl _⟩

theorem expression (c : Cursor) (code : Reading Unit) : (expressionValue c code).Covers code :=
  ⟨fun hsevered => Bool.or_eq_true_iff.2 (.inl hsevered), Nat.le_refl _⟩

end Reading.Covers

/-- A reading that another one is part of, with all the elements that were found in it. -/
structure Reading.Includes {α β : Type} (whole : Reading α) (part : Reading β) : Prop where
  covers : whole.Covers part
  elements : part.elements <:+: whole.elements

namespace Reading.Includes

variable {α β γ : Type} {whole : Reading α} {part first : Reading β} {second : Reading γ}

theorem refl (whole : Reading α) : whole.Includes whole :=
  ⟨.refl whole, List.infix_rfl⟩

theorem trans (h : whole.Includes first) (h' : first.Includes second) : whole.Includes second :=
  ⟨h.covers.trans h'.covers, h'.elements.trans h.elements⟩

theorem left (hle : second.next.remaining ≤ first.next.remaining) :
    (first.andThen second).Includes first :=
  ⟨.left hle, (List.prefix_append _ _).isInfix⟩

theorem right (first : Reading β) (second : Reading γ) : (first.andThen second).Includes second :=
  ⟨.right first second, (List.suffix_append _ _).isInfix⟩

theorem map (f : β → γ) (part : Reading β) : (part.map f).Includes part :=
  ⟨.map f part, List.infix_rfl⟩

theorem enclosed (opening : Reading Element) (close : Option ClosingTag) :
    (opening.enclosedBy close).Includes opening :=
  ⟨.enclosed opening close, (List.suffix_cons _ _).isInfix⟩

theorem expression (c : Cursor) (code : Reading Unit) : (expressionValue c code).Includes code :=
  ⟨.expression c code, List.infix_rfl⟩

end Reading.Includes

section Open

variable {source rest : List Char} {c d : Cursor} {α β : Type} {task : Task α} {task' : Task β}
  {enters inside : Bool}

/-- A reader's reading includes what it goes on with. -/
theorem Leads.includes (h : Leads task c enters task' d) :
    (task.read c).Includes (task'.read d) := by
  cases h with
  | @toTemplate inBraces openBraces depth _ _ hrest =>
      rw [(Reads.codeTemplate hrest ((Task.template depth).reads _)
        ((Task.code inBraces openBraces depth).reads _)).read_eq]
      exact .left (Task.remaining_read_le _ _)
  | @pastTemplate inBraces openBraces depth _ _ _ hrest hnext =>
      subst hnext
      rw [(Reads.codeTemplate hrest ((Task.template depth).reads _)
        ((Task.code inBraces openBraces depth).reads _)).read_eq]
      exact .right _ _
  | @pastOpen inBraces openBraces depth _ _ hrest =>
      rw [(Reads.codeOpen hrest ((Task.code inBraces (openBraces + 1) depth).reads _)).read_eq]
      exact .refl _
  | @pastClose inBraces openBraces depth _ _ hrest hstays =>
      rw [(Reads.codeClose hrest hstays
        ((Task.code inBraces (openBraces - 1) depth).reads _)).read_eq]
      exact .refl _
  | @toElement inBraces openBraces depth _ _ hrest hopens =>
      rw [(Reads.codeElement hrest hopens ((Task.element depth c.offset).reads _)
        ((Task.code inBraces openBraces depth).reads _)).read_eq]
      exact .left (Task.remaining_read_le _ _)
  | @pastElement inBraces openBraces depth _ _ _ hrest hopens hnext =>
      subst hnext
      rw [(Reads.codeElement hrest hopens ((Task.element depth c.offset).reads _)
        ((Task.code inBraces openBraces depth).reads _)).read_eq]
      exact .right _ _
  | @pastLess inBraces openBraces depth _ _ hrest hopens =>
      rw [(Reads.codeLess hrest hopens ((Task.code inBraces openBraces depth).reads _)).read_eq]
      exact .refl _
  | @pastPlain inBraces openBraces depth _ _ _ hrest hplain =>
      rw [(Reads.codePlain hrest hplain ((Task.code inBraces openBraces depth).reads _)).read_eq]
      exact .refl _
  | @pastEscape depth _ _ hrest =>
      rw [(Reads.templateEscape hrest ((Task.template depth).reads _)).read_eq]
      exact .refl _
  | @toTemplateHole depth _ _ hrest =>
      rw [(Reads.templateHole hrest ((Task.code true 0 depth).reads _)
        ((Task.template depth).reads _)).read_eq]
      exact .left (Task.remaining_read_le _ _)
  | @pastTemplateHole depth _ _ _ hrest hnext =>
      subst hnext
      rw [(Reads.templateHole hrest ((Task.code true 0 depth).reads _)
        ((Task.template depth).reads _)).read_eq]
      exact .right _ _
  | @pastTemplateText depth _ _ _ hrest hplain hhole =>
      rw [(Reads.templatePlain hrest hplain hhole ((Task.template depth).reads _)).read_eq]
      exact .refl _
  | @toOpeningTag depth start =>
      have hopening := (Task.openingTag .code depth start).reads c
      cases hself : ((Task.openingTag .code depth start).read c).value.selfClosing with
      | true =>
          rw [(Reads.elementEmpty hopening hself).read_eq]
          exact .enclosed _ _
      | false =>
          rw [(Reads.elementFull hopening hself ((Task.children depth).reads _)).read_eq]
          refine Reading.Includes.trans (.left ?_) (.enclosed _ _)
          exact Task.remaining_read_le (.children depth) _
  | @toChildren depth start _ _ hfull hnext =>
      subst hnext
      rw [(Reads.elementFull ((Task.openingTag .code depth start).reads c) hfull
        ((Task.children depth).reads _)).read_eq]
      exact (Reading.Includes.right _ _).trans (.map _ _)
  | @toHole depth _ _ hrest =>
      rw [(Reads.childrenHole hrest ((Task.code true 0 (depth + 1)).reads _)
        ((Task.children depth).reads _)).read_eq]
      exact .left (Task.remaining_read_le _ _)
  | @pastHole depth _ _ _ hrest hnext =>
      subst hnext
      rw [(Reads.childrenHole hrest ((Task.code true 0 (depth + 1)).reads _)
        ((Task.children depth).reads _)).read_eq]
      exact .right _ _
  | @toChild depth _ _ hrest hopens =>
      rw [(Reads.childrenElement hrest hopens ((Task.element (depth + 1) c.offset).reads _)
        ((Task.children depth).reads _)).read_eq]
      exact .left (Task.remaining_read_le _ _)
  | @pastChild depth _ _ _ hrest hopens hnext =>
      subst hnext
      rw [(Reads.childrenElement hrest hopens ((Task.element (depth + 1) c.offset).reads _)
        ((Task.children depth).reads _)).read_eq]
      exact .right _ _
  | @pastChildLess depth _ _ hrest hclose hopens =>
      rw [(Reads.childrenLess hrest hclose hopens ((Task.children depth).reads _)).read_eq]
      exact .refl _
  | @pastChildText depth _ _ _ hrest hplain =>
      rw [(Reads.childrenPlain hrest hplain ((Task.children depth).reads _)).read_eq]
      exact .refl _
  | @toTagBody style depth start _ _ hname =>
      rw [(Reads.openingTag hname ((Task.tagBody style depth d.offset).reads _)).read_eq]
      exact .map _ _
  | @toSpread depth attrsEnd _ _ _ hhere hrest =>
      rw [(Reads.bodySpread hhere hrest ((Task.code true 0 (depth + 1)).reads _)
        ((Task.tagBody .code depth _).reads _)).read_eq]
      exact .left (Task.remaining_read_le _ _)
  | @pastSpread depth attrsEnd _ _ _ _ hhere hrest hnext =>
      subst hnext
      rw [(Reads.bodySpread hhere hrest ((Task.code true 0 (depth + 1)).reads _)
        ((Task.tagBody .code depth _).reads _)).read_eq]
      exact .right _ _
  | @toValue style depth attrsEnd _ here _ _ hhere hrest hnamed =>
      rw [(Reads.bodyAttribute hhere hrest hnamed (congrArg _ hrest)
        ((Task.attributeValue style depth).reads _) ((Task.tagBody style depth _).reads _)).read_eq]
      exact .left (Task.remaining_read_le (.tagBody style depth _) _)
  | @pastValue style depth attrsEnd _ here _ _ _ hhere hrest hnamed hnext =>
      subst hnext
      rw [(Reads.bodyAttribute hhere hrest hnamed (congrArg _ hrest)
        ((Task.attributeValue style depth).reads _) ((Task.tagBody style depth _).reads _)).read_eq]
      exact (Reading.Includes.right _ _).trans (.map _ _)
  | @pastOther style depth attrsEnd _ _ _ _ hhere hrest hslash hclose hspread hnamed =>
      rw [(Reads.bodySkip hhere hrest hslash hclose hspread hnamed
        ((Task.tagBody style depth attrsEnd).reads _)).read_eq]
      exact .refl _
  | @intoExpression depth _ _ _ hequals hhere hrest =>
      rw [(Reads.valueExpression hequals hhere hrest
        ((Task.code true 0 (depth + 1)).reads _)).read_eq]
      exact .expression _ _

theorem Leads.covers (h : Leads task c enters task' d) : (task.read c).Covers (task'.read d) :=
  h.includes.covers

/-- What is found where a reader comes is found by the reader. -/
theorem Comes.elements (h : Comes task c inside task' d) :
    (task'.read d).elements <:+: (task.read c).elements := by
  induction h with
  | here => exact List.infix_rfl
  | on hfirst _ ih => exact ih.trans hfirst.includes.elements

theorem Leads.isIn (h : Leads task c enters task' d) (hin : c.IsIn source) : d.IsIn source := by
  cases h with
  | toTemplate | pastOpen | pastClose | toElement | pastLess | pastTemplateText | toHole | toChild
  | pastChildLess | pastChildText => exact hin.advance
  | pastTemplate _ hnext | pastElement _ _ hnext | pastHole _ hnext | pastChild _ _ hnext =>
      exact hnext ▸ (Task.reads _ _).isIn hin.advance
  | pastPlain | pastEscape | toTemplateHole => exact hin.drop _
  | pastTemplateHole _ hnext => exact hnext ▸ (Task.reads _ _).isIn (hin.drop 2)
  | toOpeningTag => exact hin
  | toChildren _ hnext => exact hnext ▸ (Task.reads _ _).isIn hin
  | toTagBody hname => exact hname ▸ hin.drop _
  | toSpread hhere => exact hhere ▸ (hin.skipWhile _).advance
  | pastSpread hhere _ hnext =>
      subst hhere hnext
      exact (Task.reads _ _).isIn (hin.skipWhile _).advance
  | toValue hhere => exact hhere ▸ (hin.skipWhile _).skipWhile _
  | pastValue hhere _ _ hnext =>
      subst hhere hnext
      exact (Task.reads _ _).isIn ((hin.skipWhile _).skipWhile _)
  | pastOther hhere => exact hhere ▸ (hin.skipWhile _).advance
  | intoExpression _ hhere => exact hhere ▸ ((hin.skipWhile _).advance.skipWhile _).advance

/-- What a text ends with, for a cursor at its end that has come from behind an opening brace. -/
theorem getLast?_of_end {here next : Cursor} (hrest : here.rest = '{' :: rest)
    (hin : here.IsIn source) (hnext : next.IsIn source)
    (hle : next.remaining ≤ here.advance.remaining) (hend : next.rest = []) :
    source.getLast? = (here.advance.textTo next).getLast?.or (some '{') := by
  obtain ⟨-, hbefore⟩ := hin.advance.textTo_append hnext hle
  rw [hnext.text, hend, List.append_nil, List.getLast?_reverse, hbefore, List.head?_append,
    List.head?_reverse, Cursor.advance_of_rest hrest]
  rfl

/-- An expression that a text ends in is cut off inside the last character, if that is beyond ASCII. -/
theorem Leads.severs (h : Leads task c true task' d) (hin : c.IsIn source)
    (hbeyond : EndsBeyondAscii source) (hend : (task'.read d).next.rest = []) :
    (task.read c).severed = true := by
  cases h with
  | @intoExpression depth _ here rest hequals hhere hrest =>
      have hcode := (Task.code true 0 (depth + 1)).reads here.advance
      have hthere : here.IsIn source := hhere ▸ (hin.skipWhile _).advance.skipWhile _
      obtain ⟨ch, hlast, hch⟩ := hbeyond
      rw [getLast?_of_end hrest hthere (hcode.isIn hthere.advance) hcode.remaining_le hend] at hlast
      rw [(Reads.valueExpression hequals hhere hrest hcode).read_eq]
      refine Bool.or_eq_true_iff.2 (.inr ?_)
      rcases Option.or_eq_some_iff.1 hlast with hinside | ⟨-, hbrace⟩
      · rw [hinside]
        simpa using hch
      · cases hbrace
        exact absurd hch (by decide)

theorem Comes.remaining_le (h : Comes task c inside task' d) :
    (task.read c).next.remaining ≤ d.remaining := by
  induction h with
  | here => exact Task.remaining_read_le _ _
  | on hfirst _ ih => exact Nat.le_trans hfirst.covers.2 ih

theorem rest_eq_nil_of_remaining (h : c.remaining ≤ d.remaining) (hend : d.rest = []) :
    c.rest = [] := by
  rw [Cursor.remaining, Cursor.remaining, hend] at h
  exact List.eq_nil_of_length_eq_zero (Nat.le_zero.1 h)

/-- A reader that comes to the end inside an expression is severed, if the text ends beyond ASCII. -/
theorem Comes.severs (h : Comes task c inside task' d) (hinside : inside = true) (hin : c.IsIn source)
    (hbeyond : EndsBeyondAscii source) (hend : d.rest = []) : (task.read c).severed = true := by
  induction h with
  | here => cases hinside
  | @on _ _ _ _ _ _ _ _ _ enters _ hfirst hothers ih =>
      cases enters with
      | true => exact hfirst.severs hin hbeyond (rest_eq_nil_of_remaining hothers.remaining_le hend)
      | false => exact hfirst.covers.1 (ih hinside (hfirst.isIn hin) hend)

/-! ### From the start of the text on to its end -/

theorem EndsInside.on (hfirst : Leads task c enters task' d) (h : EndsInside task' d) :
    EndsInside task c := by
  obtain ⟨β, last, e, hcomes, hend⟩ := h
  refine ⟨β, last, e, ?_, hend⟩
  have hfurther := Comes.on hfirst hcomes
  rwa [Bool.or_true] at hfurther

/-- Reading a task from a place on comes to the end of the text. -/
def ComesToEnd {α : Type} (task : Task α) (c : Cursor) : Prop :=
  ∃ (inside : Bool) (β : Type) (last : Task β) (d : Cursor),
    Comes task c inside last d ∧ d.rest = []

theorem ComesToEnd.on (hfirst : Leads task c enters task' d) (h : ComesToEnd task' d) :
    ComesToEnd task c := by
  obtain ⟨inside, β, last, e, hcomes, hend⟩ := h
  exact ⟨_, β, last, e, hcomes.on hfirst, hend⟩

def Task.isBraced : {α : Type} → Task α → Bool
  | _, .code inBraces _ _ => inBraces
  | _, _ => false

/-- Code in braces is left behind its closing brace, or the text ends first. -/
theorem Reads.leaves_or_comesToEnd {reading : Reading α} (hreads : Reads task c reading)
    (hbraced : task.isBraced = true) :
    reading.next.before.head? = some '}' ∨ ComesToEnd task c := by
  induction hreads with
  | codeEnd hrest => exact .inr ⟨false, _, _, _, .here, hrest⟩
  | codeLeave hrest =>
      left
      rw [Reading.next_found, Cursor.advance_of_rest hrest]
      rfl
  | codeTemplate hrest htemplate _ _ ih =>
      exact (ih hbraced).imp_right (.on (.pastTemplate hrest (congrArg _ htemplate.read_eq.symm)))
  | codeOpen hrest _ ih => exact (ih hbraced).imp_right (.on (.pastOpen hrest))
  | codeClose hrest hstays _ ih => exact (ih hbraced).imp_right (.on (.pastClose hrest hstays))
  | codeElement hrest hopens helement _ _ ih =>
      exact (ih hbraced).imp_right (.on (.pastElement hrest hopens (congrArg _ helement.read_eq.symm)))
  | codeLess hrest hopens _ ih => exact (ih hbraced).imp_right (.on (.pastLess hrest hopens))
  | codePlain hrest hplain _ ih => exact (ih hbraced).imp_right (.on (.pastPlain hrest hplain))
  | _ => cases hbraced

/-- A severed reader has come to the end inside an expression, and the text ends beyond ASCII. -/
theorem Reads.endsInside {reading : Reading α} (hreads : Reads task c reading) (hin : c.IsIn source)
    (hsevered : reading.severed = true) : EndsInside task c ∧ EndsBeyondAscii source := by
  induction hreads with
  | codeEnd | codeLeave | templateEnd | templateClose | childrenEnd | childrenClose | bodyEnd
  | bodySelfClose | bodyClose | valueNone | valueMissing | valueQuoted | valueUnquoted =>
      cases hsevered
  | codeTemplate hrest htemplate _ ihtemplate ihcode =>
      rcases Bool.or_eq_true_iff.1 hsevered with hfirst | hsecond
      · exact (ihtemplate hin.advance hfirst).imp_left (.on (.toTemplate hrest))
      · exact (ihcode (htemplate.isIn hin.advance) hsecond).imp_left
          (.on (.pastTemplate hrest (congrArg _ htemplate.read_eq.symm)))
  | codeOpen hrest _ ih => exact (ih hin.advance hsevered).imp_left (.on (.pastOpen hrest))
  | codeClose hrest hstays _ ih =>
      exact (ih hin.advance hsevered).imp_left (.on (.pastClose hrest hstays))
  | codeElement hrest hopens helement _ ihelement ihcode =>
      rcases Bool.or_eq_true_iff.1 hsevered with hfirst | hsecond
      · exact (ihelement hin.advance hfirst).imp_left (.on (.toElement hrest hopens))
      · exact (ihcode (helement.isIn hin.advance) hsecond).imp_left
          (.on (.pastElement hrest hopens (congrArg _ helement.read_eq.symm)))
  | codeLess hrest hopens _ ih =>
      exact (ih hin.advance hsevered).imp_left (.on (.pastLess hrest hopens))
  | codePlain hrest hplain _ ih =>
      exact (ih (hin.drop _) hsevered).imp_left (.on (.pastPlain hrest hplain))
  | templateEscape hrest _ ih =>
      exact (ih (hin.drop 2) hsevered).imp_left (.on (.pastEscape hrest))
  | templateHole hrest hhole _ ihhole ihtemplate =>
      rcases Bool.or_eq_true_iff.1 hsevered with hfirst | hsecond
      · exact (ihhole (hin.drop 2) hfirst).imp_left (.on (.toTemplateHole hrest))
      · exact (ihtemplate (hhole.isIn (hin.drop 2)) hsecond).imp_left
          (.on (.pastTemplateHole hrest (congrArg _ hhole.read_eq.symm)))
  | templatePlain hrest hplain hhole _ ih =>
      exact (ih hin.advance hsevered).imp_left (.on (.pastTemplateText hrest hplain hhole))
  | elementEmpty _ _ ih => exact (ih hin hsevered).imp_left (.on .toOpeningTag)
  | elementFull hopening hfull _ ihopening ihchildren =>
      rcases Bool.or_eq_true_iff.1 hsevered with hfirst | hsecond
      · exact (ihopening hin hfirst).imp_left (.on .toOpeningTag)
      · have hedge := Leads.toChildren (hopening.read_eq ▸ hfull) (congrArg _ hopening.read_eq.symm)
        exact (ihchildren (hopening.isIn hin) hsecond).imp_left (.on hedge)
  | childrenHole hrest hhole _ ihhole ihchildren =>
      rcases Bool.or_eq_true_iff.1 hsevered with hfirst | hsecond
      · exact (ihhole hin.advance hfirst).imp_left (.on (.toHole hrest))
      · exact (ihchildren (hhole.isIn hin.advance) hsecond).imp_left
          (.on (.pastHole hrest (congrArg _ hhole.read_eq.symm)))
  | childrenElement hrest hopens helement _ ihelement ihchildren =>
      rcases Bool.or_eq_true_iff.1 hsevered with hfirst | hsecond
      · exact (ihelement hin.advance hfirst).imp_left (.on (.toChild hrest hopens))
      · exact (ihchildren (helement.isIn hin.advance) hsecond).imp_left
          (.on (.pastChild hrest hopens (congrArg _ helement.read_eq.symm)))
  | childrenLess hrest hclose hopens _ ih =>
      exact (ih hin.advance hsevered).imp_left (.on (.pastChildLess hrest hclose hopens))
  | childrenPlain hrest hplain _ ih =>
      exact (ih hin.advance hsevered).imp_left (.on (.pastChildText hrest hplain))
  | openingTag hname _ ih =>
      exact (ih (hname ▸ hin.drop _) hsevered).imp_left (.on (.toTagBody hname))
  | bodySpread hhere hrest hspread _ ihspread ihbody =>
      have hthere := hhere ▸ (hin.skipWhile Ascii.isBlank)
      rcases Bool.or_eq_true_iff.1 hsevered with hfirst | hsecond
      · exact (ihspread hthere.advance hfirst).imp_left (.on (.toSpread hhere hrest))
      · exact (ihbody (hspread.isIn hthere.advance) hsecond).imp_left
          (.on (.pastSpread hhere hrest (congrArg _ hspread.read_eq.symm)))
  | bodyAttribute hhere hrest hnamed hname hvalue _ ihvalue ihbody =>
      rw [← hrest] at hname
      subst hname
      have hthere := hhere ▸ (hin.skipWhile Ascii.isBlank)
      rcases Bool.or_eq_true_iff.1 hsevered with hfirst | hsecond
      · exact (ihvalue (hthere.drop _) hfirst).imp_left (.on (.toValue hhere hrest hnamed))
      · exact (ihbody (hvalue.isIn (hthere.drop _)) hsecond).imp_left
          (.on (.pastValue hhere hrest hnamed (congrArg _ hvalue.read_eq.symm)))
  | bodySkip hhere hrest hslash hclose hspread hnamed _ ih =>
      exact (ih (hhere ▸ hin.skipWhile Ascii.isBlank).advance hsevered).imp_left
        (.on (.pastOther hhere hrest hslash hclose hspread hnamed))
  | @valueExpression depth _ _ _ _ hequals hhere hrest hcode ih =>
      have hthere := hhere ▸ (hin.skipWhile Ascii.isBlank).advance.skipWhile Ascii.isBlank
      have hedge := @Leads.intoExpression depth _ _ _ hequals hhere hrest
      rcases Bool.or_eq_true_iff.1 hsevered with hfirst | hsecond
      · exact (ih hthere.advance hfirst).imp_left (.on hedge)
      · have hin' := hcode.isIn hthere.advance
        obtain ⟨-, hbefore⟩ := hthere.advance.textTo_append hin' hcode.remaining_le
        obtain ⟨ch, hlast, hch⟩ := (Option.any_eq_true _ _).1 hsecond
        have hascii : Ascii.isAscii ch = false := by simpa using hch
        rcases hcode.leaves_or_comesToEnd rfl with hbrace | hcomes
        · rw [hbefore, List.head?_append, List.head?_reverse, hlast] at hbrace
          cases hbrace
          exact absurd hascii (by decide)
        · obtain ⟨inside, β, last, e, hothers, hend⟩ := hcomes
          have hnext : Cursor.rest _ = [] := rest_eq_nil_of_remaining hothers.remaining_le hend
          rw [hcode.read_eq] at hnext
          refine ⟨⟨β, last, e, hothers.on hedge, hend⟩, ch, ?_, hascii⟩
          rw [getLast?_of_end hrest hthere hin' hcode.remaining_le hnext, hlast]
          rfl

end Open

/-- **Open expressions.** A module is severed exactly if it ends inside an expression and beyond ASCII. -/
theorem severed_iff (source : List Char) :
    (readCode false 0 0 (.start source)).val.severed = true ↔
      EndsInExpression source ∧ EndsBeyondAscii source := by
  have hin := Cursor.isIn_start source
  constructor
  · exact (reads_readCode false 0 0 _).endsInside hin
  · rintro ⟨⟨β, last, d, hcomes, hend⟩, hbeyond⟩
    exact hcomes.severs rfl hin hbeyond hend

end ComponentTags
