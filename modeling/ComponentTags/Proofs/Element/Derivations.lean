import ComponentTags.Element.Reading

/-!
What readers read, as derivations: one rule for each branch of each reader. A fact about all readings
is proved by one induction on the derivation.
-/

namespace ComponentTags

/-- What a reader is asked for, with the type of its value. -/
inductive Task : Type → Type where
  | code (inBraces : Bool) (openBraces depth : Nat) : Task Unit
  | template (depth : Nat) : Task Unit
  | element (depth start : Nat) : Task Unit
  | children (depth : Nat) : Task (Option ClosingTag)
  | openingTag (style : TagSyntax) (depth start : Nat) : Task Element
  | tagBody (style : TagSyntax) (depth attrsEnd : Nat) : Task TagBody
  | attributeValue (style : TagSyntax) (depth : Nat) : Task (Option AttributeValue)

/-- Whether a `<` opens an element in code: what stands before it and what follows. -/
def opensElement (before rest : List Char) : Bool :=
  Lexical.operandFollows before && Lexical.elementFollows rest
    && !Lexical.typeParametersFollow rest

/-- The element that an opening tag opens, once the rest of the tag is read. -/
def openedElement (depth start : Nat) (c : Cursor) (tag : TagBody) (next : Cursor) : Element :=
  let name := c.rest.takeWhile Lexical.isNameChar
  { name := String.ofList name
    nameSpan := ⟨c.offset, (c.drop name.length).offset⟩
    span := ⟨start, next.offset⟩
    attributes := tag.attributes
    attrsEnd := tag.attrsEnd
    selfClosing := tag.selfClosing
    depth := depth
    close := none }

/-- The readings of each task from each cursor on. -/
inductive Reads : {α : Type} → Task α → Cursor → Reading α → Prop where
  | codeEnd {inBraces : Bool} {openBraces depth : Nat} {c : Cursor} (hrest : c.rest = []) :
      Reads (.code inBraces openBraces depth) c (.found () c)
  | codeTemplate {inBraces : Bool} {openBraces depth : Nat} {c : Cursor} {rest : List Char}
      {template code : Reading Unit} (hrest : c.rest = '\x60' :: rest)
      (htemplate : Reads (.template depth) c.advance template)
      (hcode : Reads (.code inBraces openBraces depth) template.next code) :
      Reads (.code inBraces openBraces depth) c (template.andThen code)
  | codeOpen {inBraces : Bool} {openBraces depth : Nat} {c : Cursor} {rest : List Char}
      {code : Reading Unit} (hrest : c.rest = '{' :: rest)
      (hcode : Reads (.code inBraces (openBraces + 1) depth) c.advance code) :
      Reads (.code inBraces openBraces depth) c code
  | codeLeave {depth : Nat} {c : Cursor} {rest : List Char} (hrest : c.rest = '}' :: rest) :
      Reads (.code true 0 depth) c (.found () c.advance)
  | codeClose {inBraces : Bool} {openBraces depth : Nat} {c : Cursor} {rest : List Char}
      {code : Reading Unit} (hrest : c.rest = '}' :: rest)
      (hstays : ¬(openBraces = 0 ∧ inBraces = true))
      (hcode : Reads (.code inBraces (openBraces - 1) depth) c.advance code) :
      Reads (.code inBraces openBraces depth) c code
  | codeElement {inBraces : Bool} {openBraces depth : Nat} {c : Cursor} {rest : List Char}
      {element code : Reading Unit} (hrest : c.rest = '<' :: rest)
      (hopens : opensElement c.before rest = true)
      (helement : Reads (.element depth c.offset) c.advance element)
      (hcode : Reads (.code inBraces openBraces depth) element.next code) :
      Reads (.code inBraces openBraces depth) c (element.andThen code)
  | codeLess {inBraces : Bool} {openBraces depth : Nat} {c : Cursor} {rest : List Char}
      {code : Reading Unit} (hrest : c.rest = '<' :: rest)
      (hopens : opensElement c.before rest = false)
      (hcode : Reads (.code inBraces openBraces depth) c.advance code) :
      Reads (.code inBraces openBraces depth) c code
  | codePlain {inBraces : Bool} {openBraces depth : Nat} {c : Cursor} {ch : Char}
      {rest : List Char} {code : Reading Unit} (hrest : c.rest = ch :: rest)
      (hplain : ch ∉ ['\x60', '{', '}', '<'])
      (hcode : Reads (.code inBraces openBraces depth)
        (c.drop (Lexical.plainLength (ch :: rest))) code) :
      Reads (.code inBraces openBraces depth) c code
  | templateEnd {depth : Nat} {c : Cursor} (hrest : c.rest = []) :
      Reads (.template depth) c (.found () c)
  | templateClose {depth : Nat} {c : Cursor} {rest : List Char} (hrest : c.rest = '\x60' :: rest) :
      Reads (.template depth) c (.found () c.advance)
  | templateEscape {depth : Nat} {c : Cursor} {rest : List Char} {template : Reading Unit}
      (hrest : c.rest = '\\' :: rest) (htemplate : Reads (.template depth) (c.drop 2) template) :
      Reads (.template depth) c template
  | templateHole {depth : Nat} {c : Cursor} {rest : List Char} {hole template : Reading Unit}
      (hrest : c.rest = '$' :: '{' :: rest) (hhole : Reads (.code true 0 depth) (c.drop 2) hole)
      (htemplate : Reads (.template depth) hole.next template) :
      Reads (.template depth) c (hole.andThen template)
  | templatePlain {depth : Nat} {c : Cursor} {ch : Char} {rest : List Char}
      {template : Reading Unit} (hrest : c.rest = ch :: rest) (hplain : ch ∉ ['\x60', '\\'])
      (hhole : ch = '$' → ∀ rest', rest ≠ '{' :: rest')
      (htemplate : Reads (.template depth) c.advance template) :
      Reads (.template depth) c template
  | elementEmpty {depth start : Nat} {c : Cursor} {opening : Reading Element}
      (hopening : Reads (.openingTag .code depth start) c opening)
      (hempty : opening.value.selfClosing = true) :
      Reads (.element depth start) c (opening.enclosedBy none)
  | elementFull {depth start : Nat} {c : Cursor} {opening : Reading Element}
      {children : Reading (Option ClosingTag)}
      (hopening : Reads (.openingTag .code depth start) c opening)
      (hfull : opening.value.selfClosing = false)
      (hchildren : Reads (.children depth) opening.next children) :
      Reads (.element depth start) c
        ((opening.enclosedBy children.value).andThen (children.map fun _ => ()))
  | childrenEnd {depth : Nat} {c : Cursor} (hrest : c.rest = []) :
      Reads (.children depth) c (.found none c)
  | childrenHole {depth : Nat} {c : Cursor} {rest : List Char} {hole : Reading Unit}
      {children : Reading (Option ClosingTag)} (hrest : c.rest = '{' :: rest)
      (hhole : Reads (.code true 0 (depth + 1)) c.advance hole)
      (hchildren : Reads (.children depth) hole.next children) :
      Reads (.children depth) c (hole.andThen children)
  | childrenClose {depth : Nat} {c : Cursor} {rest : List Char}
      (hrest : c.rest = '<' :: '/' :: rest) :
      Reads (.children depth) c ((closingTag c).map fun tag => some tag.2)
  | childrenElement {depth : Nat} {c : Cursor} {rest : List Char} {element : Reading Unit}
      {children : Reading (Option ClosingTag)} (hrest : c.rest = '<' :: rest)
      (hopens : Lexical.elementFollows rest = true)
      (helement : Reads (.element (depth + 1) c.offset) c.advance element)
      (hchildren : Reads (.children depth) element.next children) :
      Reads (.children depth) c (element.andThen children)
  | childrenLess {depth : Nat} {c : Cursor} {rest : List Char}
      {children : Reading (Option ClosingTag)} (hrest : c.rest = '<' :: rest)
      (hclose : ∀ rest', rest ≠ '/' :: rest') (hopens : Lexical.elementFollows rest = false)
      (hchildren : Reads (.children depth) c.advance children) :
      Reads (.children depth) c children
  | childrenPlain {depth : Nat} {c : Cursor} {ch : Char} {rest : List Char}
      {children : Reading (Option ClosingTag)} (hrest : c.rest = ch :: rest)
      (hplain : ch ∉ ['{', '<']) (hchildren : Reads (.children depth) c.advance children) :
      Reads (.children depth) c children
  | openingTag {style : TagSyntax} {depth start : Nat} {c afterName : Cursor}
      {body : Reading TagBody}
      (hname : afterName = c.drop (c.rest.takeWhile Lexical.isNameChar).length)
      (hbody : Reads (.tagBody style depth afterName.offset) afterName body) :
      Reads (.openingTag style depth start) c
        (body.map fun tag => openedElement depth start c tag body.next)
  | bodyEnd {style : TagSyntax} {depth attrsEnd : Nat} {c here : Cursor}
      (hhere : here = c.skipWhile Ascii.isBlank) (hrest : here.rest = []) :
      Reads (.tagBody style depth attrsEnd) c (.found (.last attrsEnd false) here)
  | bodySelfClose {style : TagSyntax} {depth attrsEnd : Nat} {c here : Cursor} {rest : List Char}
      (hhere : here = c.skipWhile Ascii.isBlank) (hrest : here.rest = '/' :: '>' :: rest) :
      Reads (.tagBody style depth attrsEnd) c (.found (.last attrsEnd true) (here.drop 2))
  | bodyClose {style : TagSyntax} {depth attrsEnd : Nat} {c here : Cursor} {rest : List Char}
      (hhere : here = c.skipWhile Ascii.isBlank) (hrest : here.rest = '>' :: rest) :
      Reads (.tagBody style depth attrsEnd) c (.found (.last attrsEnd false) here.advance)
  | bodySpread {depth attrsEnd : Nat} {c here : Cursor} {rest : List Char}
      {spread : Reading Unit} {body : Reading TagBody}
      (hhere : here = c.skipWhile Ascii.isBlank) (hrest : here.rest = '{' :: rest)
      (hspread : Reads (.code true 0 (depth + 1)) here.advance spread)
      (hbody : Reads (.tagBody .code depth spread.next.offset) spread.next body) :
      Reads (.tagBody .code depth attrsEnd) c (spread.andThen body)
  | bodyAttribute {style : TagSyntax} {depth attrsEnd : Nat} {c here : Cursor} {ch : Char}
      {rest name : List Char} {value : Reading (Option AttributeValue)} {body : Reading TagBody}
      (hhere : here = c.skipWhile Ascii.isBlank) (hrest : here.rest = ch :: rest)
      (hnamed : Lexical.isAttributeNameChar ch = true)
      (hname : name = (ch :: rest).takeWhile Lexical.isAttributeNameChar)
      (hvalue : Reads (.attributeValue style depth) (here.drop name.length) value)
      (hbody : Reads (.tagBody style depth value.next.offset) value.next body) :
      Reads (.tagBody style depth attrsEnd) c
        (value.andThen (body.map (.cons
          { name := String.ofList name
            value := value.value
            span := ⟨here.offset, value.next.offset⟩ })))
  | bodySkip {style : TagSyntax} {depth attrsEnd : Nat} {c here : Cursor} {ch : Char}
      {rest : List Char} {body : Reading TagBody}
      (hhere : here = c.skipWhile Ascii.isBlank) (hrest : here.rest = ch :: rest)
      (hslash : ch = '/' → ∀ rest', rest ≠ '>' :: rest') (hclose : ch ≠ '>')
      (hspread : ¬(ch = '{' ∧ style = .code)) (hnamed : Lexical.isAttributeNameChar ch = false)
      (hbody : Reads (.tagBody style depth attrsEnd) here.advance body) :
      Reads (.tagBody style depth attrsEnd) c body
  | valueNone {style : TagSyntax} {depth : Nat} {c : Cursor}
      (hequals : (c.skipWhile Ascii.isBlank).rest.head? ≠ some '=') :
      Reads (.attributeValue style depth) c (.found none c)
  | valueMissing {style : TagSyntax} {depth : Nat} {c here : Cursor}
      (hequals : (c.skipWhile Ascii.isBlank).rest.head? = some '=')
      (hhere : here = (c.skipWhile Ascii.isBlank).advance.skipWhile Ascii.isBlank)
      (hrest : here.rest = []) :
      Reads (.attributeValue style depth) c (.found none here)
  | valueQuoted {style : TagSyntax} {depth : Nat} {c here : Cursor} {quote : Char}
      {rest : List Char} (hequals : (c.skipWhile Ascii.isBlank).rest.head? = some '=')
      (hhere : here = (c.skipWhile Ascii.isBlank).advance.skipWhile Ascii.isBlank)
      (hrest : here.rest = quote :: rest) (hquote : quote = '"' ∨ quote = '\'') :
      Reads (.attributeValue style depth) c (quotedValue quote here.advance)
  | valueExpression {depth : Nat} {c here : Cursor} {rest : List Char} {code : Reading Unit}
      (hequals : (c.skipWhile Ascii.isBlank).rest.head? = some '=')
      (hhere : here = (c.skipWhile Ascii.isBlank).advance.skipWhile Ascii.isBlank)
      (hrest : here.rest = '{' :: rest)
      (hcode : Reads (.code true 0 (depth + 1)) here.advance code) :
      Reads (.attributeValue .code depth) c (expressionValue here.advance code)
  | valueUnquoted {style : TagSyntax} {depth : Nat} {c here : Cursor} {ch : Char}
      {rest : List Char} (hequals : (c.skipWhile Ascii.isBlank).rest.head? = some '=')
      (hhere : here = (c.skipWhile Ascii.isBlank).advance.skipWhile Ascii.isBlank)
      (hrest : here.rest = ch :: rest) (hquote : ch ≠ '"' ∧ ch ≠ '\'')
      (hexpression : ¬(ch = '{' ∧ style = .code)) :
      Reads (.attributeValue style depth) c (unquotedValue here)

/-! ### The readers give derivations -/

mutual

theorem reads_readCode (inBraces : Bool) (openBraces depth : Nat) (c : Cursor) :
    Reads (.code inBraces openBraces depth) c (readCode inBraces openBraces depth c).val := by
  unfold readCode
  split
  · next hrest => exact .codeEnd hrest
  · next rest hrest =>
      have hsize := Cursor.remaining_of_rest hrest
      have htemplate := (readTemplate depth c.advance).property
      exact .codeTemplate hrest (reads_readTemplate _ _) (reads_readCode _ _ _ _)
  · next rest hrest =>
      have hsize := Cursor.remaining_of_rest hrest
      exact .codeOpen hrest (reads_readCode _ _ _ _)
  · next rest hrest =>
      have hsize := Cursor.remaining_of_rest hrest
      split
      · next hleaves =>
          obtain ⟨rfl, rfl⟩ : openBraces = 0 ∧ inBraces = true := by simpa using hleaves
          exact .codeLeave hrest
      · next hstays =>
          exact .codeClose hrest (by simpa using hstays) (reads_readCode _ _ _ _)
  · next rest hrest =>
      have hsize := Cursor.remaining_of_rest hrest
      split
      · next hopens =>
          have helement := (readElement depth c.offset c.advance).property
          exact .codeElement hrest hopens (reads_readElement _ _ _) (reads_readCode _ _ _ _)
      · next hopens =>
          exact .codeLess hrest (Bool.eq_false_iff.2 hopens) (reads_readCode _ _ _ _)
  · next ch rest hbacktick hopen hclose hless hrest =>
      have hsize := Cursor.remaining_of_rest hrest
      have hpositive := Lexical.plainLength_pos (List.cons_ne_nil ch rest)
      refine .codePlain hrest ?_ (reads_readCode _ _ _ _)
      simp only [List.mem_cons, List.not_mem_nil, or_false, not_or]
      exact ⟨hbacktick, hopen, hclose, hless⟩
termination_by 4 * c.remaining
decreasing_by
  all_goals simp only [Cursor.remaining_advance, Cursor.remaining_drop] at *
  all_goals omega

theorem reads_readTemplate (depth : Nat) (c : Cursor) :
    Reads (.template depth) c (readTemplate depth c).val := by
  unfold readTemplate
  split
  · next hrest => exact .templateEnd hrest
  · next rest hrest => exact .templateClose hrest
  · next rest hrest =>
      have hsize := Cursor.remaining_of_rest hrest
      exact .templateEscape hrest (reads_readTemplate _ _)
  · next rest hrest =>
      have hsize := Cursor.remaining_of_rest hrest
      have hhole := (readCode true 0 depth (c.drop 2)).property
      exact .templateHole hrest (reads_readCode _ _ _ _) (reads_readTemplate _ _)
  · next ch rest hbacktick hslash hhole hrest =>
      have hsize := Cursor.remaining_of_rest hrest
      refine .templatePlain hrest ?_ (fun hch rest' => hhole rest' hch) (reads_readTemplate _ _)
      simp only [List.mem_cons, List.not_mem_nil, or_false, not_or]
      exact ⟨hbacktick, hslash⟩
termination_by 4 * c.remaining
decreasing_by
  all_goals simp only [Cursor.remaining_advance, Cursor.remaining_drop] at *
  all_goals omega

theorem reads_readElement (depth start : Nat) (c : Cursor) :
    Reads (.element depth start) c (readElement depth start c).val := by
  have hopening := reads_readOpeningTag .code depth start c
  have hbound := (readOpeningTag .code depth start c).property
  unfold readElement
  split
  · next hempty => exact .elementEmpty hopening hempty
  · next hfull =>
      exact .elementFull hopening (Bool.eq_false_iff.2 hfull) (reads_readChildren _ _)
termination_by 4 * c.remaining + 2
decreasing_by all_goals omega

theorem reads_readChildren (depth : Nat) (c : Cursor) :
    Reads (.children depth) c (readChildren depth c).val := by
  unfold readChildren
  split
  · next hrest => exact .childrenEnd hrest
  · next rest hrest =>
      have hsize := Cursor.remaining_of_rest hrest
      have hhole := (readCode true 0 (depth + 1) c.advance).property
      exact .childrenHole hrest (reads_readCode _ _ _ _) (reads_readChildren _ _)
  · next rest hrest => exact .childrenClose hrest
  · next rest hclose hrest =>
      have hsize := Cursor.remaining_of_rest hrest
      split
      · next hopens =>
          have helement := (readElement (depth + 1) c.offset c.advance).property
          exact .childrenElement hrest hopens (reads_readElement _ _ _) (reads_readChildren _ _)
      · next hopens =>
          exact .childrenLess hrest (fun rest' => hclose rest') (Bool.eq_false_iff.2 hopens)
            (reads_readChildren _ _)
  · next ch rest hopen hclose hless hrest =>
      have hsize := Cursor.remaining_of_rest hrest
      refine .childrenPlain hrest ?_ (reads_readChildren _ _)
      simp only [List.mem_cons, List.not_mem_nil, or_false, not_or]
      exact ⟨hopen, hless⟩
termination_by 4 * c.remaining
decreasing_by
  all_goals simp only [Cursor.remaining_advance] at *
  all_goals omega

theorem reads_readOpeningTag (style : TagSyntax) (depth start : Nat) (c : Cursor) :
    Reads (.openingTag style depth start) c (readOpeningTag style depth start c).val := by
  unfold readOpeningTag
  exact .openingTag rfl (reads_readTagBody _ _ _ _)
termination_by 4 * c.remaining + 1
decreasing_by
  simp only [Cursor.remaining_drop]
  omega

theorem reads_readTagBody (style : TagSyntax) (depth attrsEnd : Nat) (c : Cursor) :
    Reads (.tagBody style depth attrsEnd) c (readTagBody style depth attrsEnd c).val := by
  have hskipped := Cursor.remaining_skipWhile_le Ascii.isBlank c
  unfold readTagBody
  dsimp only
  split
  · next hrest => exact .bodyEnd rfl hrest
  · next rest hrest => exact .bodySelfClose rfl hrest
  · next rest hrest => exact .bodyClose rfl hrest
  · next ch rest hslash hclose hrest =>
      have hsize := Cursor.remaining_of_rest hrest
      split
      · next hspread =>
          obtain ⟨rfl, rfl⟩ : ch = '{' ∧ style = .code := by simpa using hspread
          have hcode :=
            (readCode true 0 (depth + 1) (c.skipWhile Ascii.isBlank).advance).property
          exact .bodySpread rfl hrest (reads_readCode _ _ _ _) (reads_readTagBody _ _ _ _)
      · next hspread =>
          split
          · next hnamed =>
              have hpositive : 0 < ((ch :: rest).takeWhile Lexical.isAttributeNameChar).length := by
                simp [hnamed]
              have hvalue := (readAttributeValue style depth ((c.skipWhile Ascii.isBlank).drop
                ((ch :: rest).takeWhile Lexical.isAttributeNameChar).length)).property
              exact .bodyAttribute rfl hrest hnamed rfl (reads_readAttributeValue _ _ _)
                (reads_readTagBody _ _ _ _)
          · next hnamed =>
              exact .bodySkip rfl hrest (fun hch rest' => hslash rest' hch) hclose
                (by simpa using hspread) (Bool.eq_false_iff.2 hnamed) (reads_readTagBody _ _ _ _)
termination_by 4 * c.remaining
decreasing_by
  all_goals simp only [Cursor.remaining_advance, Cursor.remaining_drop] at *
  all_goals omega

theorem reads_readAttributeValue (style : TagSyntax) (depth : Nat) (c : Cursor) :
    Reads (.attributeValue style depth) c (readAttributeValue style depth c).val := by
  have hequal := Cursor.remaining_skipWhile_le Ascii.isBlank c
  have hskipped :=
    Cursor.remaining_skipWhile_le Ascii.isBlank (c.skipWhile Ascii.isBlank).advance
  unfold readAttributeValue
  dsimp only
  split
  · next hequals =>
      split
      · next hrest => exact .valueMissing hequals rfl hrest
      · next ch rest hrest =>
          have hsize := Cursor.remaining_of_rest hrest
          split
          · next hquote => exact .valueQuoted hequals rfl hrest (by simpa using hquote)
          · next hquote =>
              split
              · next hexpression =>
                  obtain ⟨rfl, rfl⟩ : ch = '{' ∧ style = .code := by simpa using hexpression
                  exact .valueExpression hequals rfl hrest (reads_readCode _ _ _ _)
              · next hexpression =>
                  exact .valueUnquoted hequals rfl hrest (by simpa using hquote)
                    (by simpa using hexpression)
  · next hequals => exact .valueNone hequals
termination_by 4 * c.remaining
decreasing_by
  all_goals simp only [Cursor.remaining_advance] at *
  all_goals omega

end

end ComponentTags
