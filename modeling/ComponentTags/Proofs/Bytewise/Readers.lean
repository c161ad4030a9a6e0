import ComponentTags.Element.Code
import ComponentTags.Proofs.Bytewise.Lexical

/-!
Reading tags byte by byte. A reader goes on one byte at a time, wherever in a character that may leave
it, and takes texts out of the source by their offsets; the elements found so far stand in one list, in
which an opening tag and its closing tag fill in their element by its index. Every index, every slice
and every difference is checked.
-/

namespace ComponentTags.Bytewise

/-- How far a source is read, and the elements found so far. -/
structure Parser where
  pos : Nat
  nodes : List Element

/-! ### Tags and code -/

mutual

def code (source : Bytewise) (inBraces : Bool) (openBraces depth : Nat) (parser : Parser) :
    Checked Parser :=
  let pos := parser.pos
  match peek source pos with
  | none => pure parser
  | some x =>
      if x = '/' ∧ peek source (pos + 1) = some '/' then do
        let next ← skipPast ['\n'] source pos
        source |>.code inBraces openBraces depth { parser with pos := next }
      else if x = '/' ∧ peek source (pos + 1) = some '*' then do
        let next ← skipPast ['*', '/'] source (bump source (bump source pos))
        source |>.code inBraces openBraces depth { parser with pos := next }
      else if x = '\'' ∨ x = '"' then do
        let next ← skipString source x (bump source pos)
        source |>.code inBraces openBraces depth { parser with pos := next }
      else if x = '\x60' then do
        let parser ← source |>.template depth { parser with pos := bump source pos }
        source |>.code inBraces openBraces depth parser
      else if x = '{' then
        source |>.code inBraces (openBraces + 1) depth { parser with pos := bump source pos }
      else if x = '}' then
        if openBraces = 0 then
          if inBraces then pure { parser with pos := bump source pos }
          else source |>.code inBraces openBraces depth { parser with pos := bump source pos }
        else do
          let openBraces ← oneLess openBraces
          source |>.code inBraces openBraces depth { parser with pos := bump source pos }
      else if x = '<' then do
        let expected ← operandFollows source pos
        if expected && elementFollows source pos then
          let generic ← typeParametersFollow source pos
          if generic then
            source |>.code inBraces openBraces depth { parser with pos := bump source pos }
          else
            let parser ← source |>.element depth pos { parser with pos := bump source pos }
            source |>.code inBraces openBraces depth parser
        else
          source |>.code inBraces openBraces depth { parser with pos := bump source pos }
      else
        source |>.code inBraces openBraces depth { parser with pos := bump source pos }
partial_fixpoint

def template (source : Bytewise) (depth : Nat) (parser : Parser) : Checked Parser :=
  let pos := parser.pos
  match peek source pos with
  | none => pure parser
  | some x =>
      if x = '\\' then
        source |>.template depth { parser with pos := bump source (bump source pos) }
      else if x = '\x60' then
        pure { parser with pos := bump source pos }
      else if x = '$' ∧ peek source (pos + 1) = some '{' then do
        let parser ← source |>.code true 0 depth { parser with pos := bump source (bump source pos) }
        source |>.template depth parser
      else
        source |>.template depth { parser with pos := bump source pos }
partial_fixpoint

/-- An element from behind its `<` on, which stands at `start`. -/
def element (source : Bytewise) (depth start : Nat) (parser : Parser) : Checked Parser := do
  let (index, parser) ← source |>.openingTag .code depth start parser
  let node ← item parser.nodes index
  if node.selfClosing then pure parser else source |>.children index depth parser
partial_fixpoint

/-- The children of the element at an index, and its closing tag. -/
def children (source : Bytewise) (parent depth : Nat) (parser : Parser) : Checked Parser :=
  let pos := parser.pos
  match peek source pos with
  | none => pure parser
  | some x =>
      if x = '{' then do
        let parser ← source |>.code true 0 (depth + 1) { parser with pos := bump source pos }
        source |>.children parent depth parser
      else if x = '<' ∧ peek source (pos + 1) = some '/' then do
        let (tag, next) ← closingTag source pos
        let nodes ← update parser.nodes parent fun node => { node with close := some tag }
        pure { pos := next, nodes }
      else if x = '<' ∧ elementFollows source pos then do
        let parser ← source |>.element (depth + 1) pos { parser with pos := bump source pos }
        source |>.children parent depth parser
      else
        source |>.children parent depth { parser with pos := bump source pos }
partial_fixpoint

/-- An opening tag from behind its `<` on, and the index of its element. -/
def openingTag (source : Bytewise) (style : TagSyntax) (depth start : Nat) (parser : Parser) :
    Checked (Nat × Parser) := do
  let nameStart := parser.pos
  let nameStop := skipWhile Lexical.isNameChar source nameStart
  let name ← slice source nameStart nameStop
  let index := parser.nodes.length
  let node : Element :=
    { name := String.ofList name
      nameSpan := ⟨nameStart, nameStop⟩
      span := ⟨start, start⟩
      attributes := []
      attrsEnd := nameStop
      selfClosing := false
      depth
      close := none }
  let parser ← source |>.tagBody style depth index
    { pos := nameStop, nodes := parser.nodes ++ [node] }
  let nodes ← update parser.nodes index fun node =>
    { node with span := ⟨node.span.start, parser.pos⟩ }
  pure (index, { parser with nodes })
partial_fixpoint

/-- The attributes of the element at an index, up to and past the end of its opening tag. -/
def tagBody (source : Bytewise) (style : TagSyntax) (depth index : Nat) (parser : Parser) :
    Checked Parser :=
  let here := skipWhile Ascii.isBlank source parser.pos
  match peek source here with
  | none => pure { parser with pos := here }
  | some x =>
      if x = '/' ∧ peek source (here + 1) = some '>' then do
        let nodes ← update parser.nodes index fun node => { node with selfClosing := true }
        pure { pos := bump source (bump source here), nodes }
      else if x = '>' then
        pure { parser with pos := bump source here }
      else if x = '{' ∧ style = .code then do
        let parser ← source |>.code true 0 (depth + 1) { parser with pos := bump source here }
        let nodes ← update parser.nodes index fun node => { node with attrsEnd := parser.pos }
        source |>.tagBody style depth index { parser with nodes }
      else if Lexical.isAttributeNameChar x then do
        let nameStop := skipWhile Lexical.isAttributeNameChar source here
        let name ← slice source here nameStop
        let (value, parser) ← source |>.attributeValue style depth { parser with pos := nameStop }
        let attr : Attribute :=
          { name := String.ofList name, value, span := ⟨here, parser.pos⟩ }
        let nodes ← update parser.nodes index fun node =>
          { node with attributes := node.attributes ++ [attr], attrsEnd := attr.span.stop }
        source |>.tagBody style depth index { parser with nodes }
      else
        source |>.tagBody style depth index { parser with pos := bump source here }
partial_fixpoint

/-- The value of an attribute, from behind its name on. -/
def attributeValue (source : Bytewise) (style : TagSyntax) (depth : Nat) (parser : Parser) :
    Checked (Option AttributeValue × Parser) :=
  let equals := skipWhile Ascii.isBlank source parser.pos
  if peek source equals = some '=' then
    let here := skipWhile Ascii.isBlank source (bump source equals)
    match peek source here with
    | none => pure (none, { parser with pos := here })
    | some x =>
        if x = '"' ∨ x = '\'' then do
          let (text, next) ← quotedValue source x (bump source here)
          pure (some (.literal (String.ofList text)), { parser with pos := next })
        else if x = '{' ∧ style = .code then do
          let start := bump source here
          let parser ← source |>.code true 0 (depth + 1) { parser with pos := start }
          let text ← slice source start (max (parser.pos - 1) start)
          pure (some (.expression (String.ofList text)), parser)
        else do
          let (text, next) ← unquotedValue source here
          pure (some (.literal (String.ofList text)), { parser with pos := next })
  else
    pure (none, parser)
partial_fixpoint

end

/-- The elements of a module of code. -/
def ofCode (source : List Char) : Checked (List Element) := do
  let parser ← code source false 0 0 { pos := 0, nodes := [] }
  pure parser.nodes

/-! ### Branches of the readers -/

section Branches

variable {source : List Char} {inBraces expected generic : Bool}
  {openBraces depth pos parent index : Nat} {nodes : List Element} {x : Char} {style : TagSyntax}

theorem code_end (h : peek source pos = none) :
    code source inBraces openBraces depth ⟨pos, nodes⟩ = pure ⟨pos, nodes⟩ := by
  rw [code, h]

theorem code_template (h : peek source pos = some '\x60') :
    code source inBraces openBraces depth ⟨pos, nodes⟩ =
      template source depth ⟨bump source pos, nodes⟩ >>=
        code source inBraces openBraces depth := by
  rw [code]
  simp only [h, Char.reduceEq, false_and, or_self, if_false, if_true]

theorem code_open (h : peek source pos = some '{') :
    code source inBraces openBraces depth ⟨pos, nodes⟩ =
      code source inBraces (openBraces + 1) depth ⟨bump source pos, nodes⟩ := by
  rw [code]
  simp only [h, Char.reduceEq, false_and, or_self, if_false, if_true]

theorem code_close (h : peek source pos = some '}') :
    code source inBraces openBraces depth ⟨pos, nodes⟩ =
      if openBraces = 0 ∧ inBraces = true then pure ⟨bump source pos, nodes⟩
      else code source inBraces (openBraces - 1) depth ⟨bump source pos, nodes⟩ := by
  rw [code]
  simp only [h, Char.reduceEq, false_and, or_self, if_false, if_true]
  cases openBraces <;> cases inBraces <;> rfl

theorem code_angle (h : peek source pos = some '<') (hbefore : operandFollows source pos = pure expected)
    (hbehind : typeParametersFollow source pos = pure generic) :
    code source inBraces openBraces depth ⟨pos, nodes⟩ =
      if expected && elementFollows source pos && !generic then
        element source depth pos ⟨bump source pos, nodes⟩ >>= code source inBraces openBraces depth
      else code source inBraces openBraces depth ⟨bump source pos, nodes⟩ := by
  rw [code]
  simp only [h, Char.reduceEq, false_and, or_self, if_false, if_true, hbefore, hbehind, pure_bind]
  cases expected <;> cases elementFollows source pos <;> cases generic <;> rfl

theorem code_line (h : peek source pos = some '/') (hnext : peek source (pos + 1) = some '/') :
    code source inBraces openBraces depth ⟨pos, nodes⟩ = (do
      let next ← skipPast ['\n'] source pos
      code source inBraces openBraces depth ⟨next, nodes⟩) := by
  rw [code]
  simp only [h, hnext, and_self, if_true]

theorem code_block (h : peek source pos = some '/') (hnext : peek source (pos + 1) = some '*') :
    code source inBraces openBraces depth ⟨pos, nodes⟩ = (do
      let next ← skipPast ['*', '/'] source (bump source (bump source pos))
      code source inBraces openBraces depth ⟨next, nodes⟩) := by
  rw [code]
  simp only [h, hnext, Char.reduceEq, Option.some.injEq, and_false, and_self, if_false, if_true]

theorem code_string (h : peek source pos = some x) (hquote : x = '\'' ∨ x = '"') :
    code source inBraces openBraces depth ⟨pos, nodes⟩ = (do
      let next ← skipString source x (bump source pos)
      code source inBraces openBraces depth ⟨next, nodes⟩) := by
  have hslash : x ≠ '/' := by rcases hquote with rfl | rfl <;> decide
  rw [code]
  simp only [h, hslash, hquote, false_and, if_false, if_true]

theorem code_other (h : peek source pos = some x)
    (hplain : x ∉ ['\x60', '{', '}', '<', '\'', '"'])
    (hline : ¬(x = '/' ∧ peek source (pos + 1) = some '/'))
    (hblock : ¬(x = '/' ∧ peek source (pos + 1) = some '*')) :
    code source inBraces openBraces depth ⟨pos, nodes⟩ =
      code source inBraces openBraces depth ⟨bump source pos, nodes⟩ := by
  simp only [List.mem_cons, List.not_mem_nil, or_false, not_or] at hplain
  rw [code]
  simp only [h, hplain, hline, hblock, or_self, if_false]

theorem template_end (h : peek source pos = none) :
    template source depth ⟨pos, nodes⟩ = pure ⟨pos, nodes⟩ := by
  rw [template, h]

theorem template_close (h : peek source pos = some '\x60') :
    template source depth ⟨pos, nodes⟩ = pure ⟨bump source pos, nodes⟩ := by
  rw [template]
  simp only [h, Char.reduceEq, if_false, if_true]

theorem template_escape (h : peek source pos = some '\\') :
    template source depth ⟨pos, nodes⟩ =
      template source depth ⟨bump source (bump source pos), nodes⟩ := by
  rw [template]
  simp only [h, if_true]

theorem template_hole (h : peek source pos = some '$') (hnext : peek source (pos + 1) = some '{') :
    template source depth ⟨pos, nodes⟩ =
      code source true 0 depth ⟨bump source (bump source pos), nodes⟩ >>= template source depth := by
  rw [template]
  simp only [h, hnext, Char.reduceEq, and_self, if_false, if_true]

theorem template_plain (h : peek source pos = some x) (hplain : x ∉ ['\x60', '\\'])
    (hhole : ¬(x = '$' ∧ peek source (pos + 1) = some '{')) :
    template source depth ⟨pos, nodes⟩ = template source depth ⟨bump source pos, nodes⟩ := by
  simp only [List.mem_cons, List.not_mem_nil, or_false, not_or] at hplain
  rw [template]
  simp only [h, hplain, hhole, if_false]

theorem children_end (h : peek source pos = none) :
    children source parent depth ⟨pos, nodes⟩ = pure ⟨pos, nodes⟩ := by
  rw [children, h]

theorem children_hole (h : peek source pos = some '{') :
    children source parent depth ⟨pos, nodes⟩ =
      code source true 0 (depth + 1) ⟨bump source pos, nodes⟩ >>=
        children source parent depth := by
  rw [children]
  simp only [h, if_true]

theorem children_close (h : peek source pos = some '<') (hnext : peek source (pos + 1) = some '/') :
    children source parent depth ⟨pos, nodes⟩ = (do
      let (tag, next) ← closingTag source pos
      let nodes ← update nodes parent fun node => { node with close := some tag }
      pure { pos := next, nodes }) := by
  rw [children]
  simp only [h, hnext, Char.reduceEq, and_self, if_false, if_true]

theorem children_element (h : peek source pos = some '<') (hnext : peek source (pos + 1) ≠ some '/')
    (hopens : elementFollows source pos = true) :
    children source parent depth ⟨pos, nodes⟩ =
      element source (depth + 1) pos ⟨bump source pos, nodes⟩ >>=
        children source parent depth := by
  rw [children]
  simp only [h, hnext, hopens, Char.reduceEq, and_self, and_false, if_false, if_true]

theorem children_plain (h : peek source pos = some x) (hhole : x ≠ '{')
    (hclose : ¬(x = '<' ∧ peek source (pos + 1) = some '/'))
    (hopens : ¬(x = '<' ∧ elementFollows source pos = true)) :
    children source parent depth ⟨pos, nodes⟩ =
      children source parent depth ⟨bump source pos, nodes⟩ := by
  rw [children]
  simp only [h, hhole, hclose, hopens, if_false]

section TagBody

variable {here : Nat} (hhere : skipWhile Ascii.isBlank source pos = here)

include hhere

theorem tagBody_end (h : peek source here = none) :
    tagBody source style depth index ⟨pos, nodes⟩ = pure ⟨here, nodes⟩ := by
  rw [tagBody]
  simp only [hhere, h]

theorem tagBody_selfClose (h : peek source here = some '/')
    (hnext : peek source (here + 1) = some '>') :
    tagBody source style depth index ⟨pos, nodes⟩ = (do
      let nodes ← update nodes index fun node => { node with selfClosing := true }
      pure { pos := bump source (bump source here), nodes }) := by
  rw [tagBody]
  simp only [hhere, h, hnext, and_self, if_true]

theorem tagBody_close (h : peek source here = some '>') :
    tagBody source style depth index ⟨pos, nodes⟩ = pure ⟨bump source here, nodes⟩ := by
  rw [tagBody]
  simp only [hhere, h, Char.reduceEq, false_and, if_false, if_true]

theorem tagBody_spread (h : peek source here = some '{') :
    tagBody source .code depth index ⟨pos, nodes⟩ = (do
      let parser ← code source true 0 (depth + 1) ⟨bump source here, nodes⟩
      let nodes ← update parser.nodes index fun node => { node with attrsEnd := parser.pos }
      tagBody source .code depth index { parser with nodes }) := by
  rw [tagBody]
  simp only [hhere, h, Char.reduceEq, false_and, and_self, if_false, if_true]

theorem tagBody_attribute (h : peek source here = some x)
    (hnamed : Lexical.isAttributeNameChar x = true) :
    tagBody source style depth index ⟨pos, nodes⟩ = (do
      let nameStop := skipWhile Lexical.isAttributeNameChar source here
      let name ← slice source here nameStop
      let (value, parser) ← attributeValue source style depth ⟨nameStop, nodes⟩
      let attr : Attribute :=
        { name := String.ofList name, value, span := ⟨here, parser.pos⟩ }
      let nodes ← update parser.nodes index fun node =>
        { node with attributes := node.attributes ++ [attr], attrsEnd := attr.span.stop }
      tagBody source style depth index { parser with nodes }) := by
  have hne : ∀ y, Lexical.isAttributeNameChar y = false → x ≠ y := by
    rintro y hy rfl
    exact Bool.false_ne_true (hy.symm.trans hnamed)
  rw [tagBody]
  simp only [hhere, h, hnamed, hne '/' rfl, hne '>' rfl, hne '{' rfl, false_and, if_false, if_true]

theorem tagBody_skip (h : peek source here = some x)
    (hslash : ¬(x = '/' ∧ peek source (here + 1) = some '>')) (hclose : x ≠ '>')
    (hspread : ¬(x = '{' ∧ style = .code)) (hnamed : Lexical.isAttributeNameChar x = false) :
    tagBody source style depth index ⟨pos, nodes⟩ =
      tagBody source style depth index ⟨bump source here, nodes⟩ := by
  rw [tagBody]
  simp only [hhere, h, hslash, hclose, hspread, hnamed, Bool.false_eq_true, if_false]

end TagBody

section AttributeValue

variable {equals here : Nat} (hequals : skipWhile Ascii.isBlank source pos = equals)

include hequals

theorem attributeValue_none (h : peek source equals ≠ some '=') :
    attributeValue source style depth ⟨pos, nodes⟩ = pure (none, ⟨pos, nodes⟩) := by
  rw [attributeValue]
  simp only [hequals, h, if_false]

variable (hsign : peek source equals = some '=')
  (hhere : skipWhile Ascii.isBlank source (bump source equals) = here)

include hsign hhere

theorem attributeValue_missing (h : peek source here = none) :
    attributeValue source style depth ⟨pos, nodes⟩ = pure (none, ⟨here, nodes⟩) := by
  rw [attributeValue]
  simp only [hequals, hsign, hhere, h, if_true]

theorem attributeValue_quoted (h : peek source here = some x) (hquote : x = '"' ∨ x = '\'') :
    attributeValue source style depth ⟨pos, nodes⟩ = (do
      let (text, next) ← quotedValue source x (bump source here)
      pure (some (.literal (String.ofList text)), ⟨next, nodes⟩)) := by
  rw [attributeValue]
  simp only [hequals, hsign, hhere, h, hquote, if_true]

theorem attributeValue_expression (h : peek source here = some '{') :
    attributeValue source .code depth ⟨pos, nodes⟩ = (do
      let start := bump source here
      let parser ← code source true 0 (depth + 1) ⟨start, nodes⟩
      let text ← slice source start (max (parser.pos - 1) start)
      pure (some (.expression (String.ofList text)), parser)) := by
  rw [attributeValue]
  simp only [hequals, hsign, hhere, h, Char.reduceEq, or_self, and_self, if_false, if_true]

theorem attributeValue_unquoted (h : peek source here = some x) (hquote : x ≠ '"' ∧ x ≠ '\'')
    (hexpression : ¬(x = '{' ∧ style = .code)) :
    attributeValue source style depth ⟨pos, nodes⟩ = (do
      let (text, next) ← unquotedValue source here
      pure (some (.literal (String.ofList text)), ⟨next, nodes⟩)) := by
  rw [attributeValue]
  simp only [hequals, hsign, hhere, h, hquote, hexpression, or_self, if_false, if_true]

end AttributeValue

end Branches
end ComponentTags.Bytewise
