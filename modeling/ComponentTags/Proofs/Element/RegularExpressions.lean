import ComponentTags.Proofs.Element.OpenFrames

/-!
Regular expressions before elements. The readers know no regular expressions: they read the characters
of one as code. So what stands behind it is found just where that code leaves nothing open, and no tag
opens in it; a backtick in a regular expression can hide all elements behind it.
-/

namespace ComponentTags

/-! ### Moved elements -/

def Span.shifted (n : Nat) (span : Span) : Span :=
  ⟨n + span.start, n + span.stop⟩

def Attribute.shifted (n : Nat) (attr : Attribute) : Attribute :=
  { attr with span := attr.span.shifted n }

def ClosingTag.shifted (n : Nat) (tag : ClosingTag) : ClosingTag :=
  ⟨tag.nameSpan.shifted n, tag.span.shifted n⟩

/-- The same element behind a text of that many bytes. -/
def Element.shifted (n : Nat) (element : Element) : Element :=
  { element with
    nameSpan := element.nameSpan.shifted n
    span := element.span.shifted n
    attributes := element.attributes.map (·.shifted n)
    attrsEnd := n + element.attrsEnd
    close := element.close.map (·.shifted n) }

section Shifts

variable (n : Nat)

theorem AttributeName.placed_add (name : AttributeName) (value : Option AttributeValue)
    (valueChars : List Char) (start : Nat) :
    name.placed value valueChars (n + start) = (name.placed value valueChars start).shifted n := by
  simp [AttributeName.placed, Attribute.shifted, Span.shifted, Nat.add_assoc]

theorem TagName.placedClosing_add (name : TagName) (start : Nat) :
    name.placedClosing (n + start) = (name.placedClosing start).shifted n := by
  simp [TagName.placedClosing, ClosingTag.shifted, Span.shifted, Nat.add_assoc]

theorem TagName.placed_add (name : TagName) (attributeChars : List Char)
    (attributes : List Attribute) (selfClosing : Bool) (depth start : Nat)
    (close : Option ClosingTag) :
    name.placed attributeChars (attributes.map (·.shifted n)) selfClosing depth (n + start)
        (close.map (·.shifted n)) =
      (name.placed attributeChars attributes selfClosing depth start close).shifted n := by
  simp [TagName.placed, Element.shifted, Span.shifted, Nat.add_assoc]

theorem CodeAttribute.placed?_add (attr : CodeAttribute) (start : Nat) :
    attr.placed? (n + start) = (attr.placed? start).map (·.shifted n) := by
  cases attr with
  | plain attr | text | tree => exact congrArg some (AttributeName.placed_add n _ _ _ start)
  | spread => rfl

theorem attributesPlaced_add (attributes : List CodeAttribute) (start : Nat) :
    attributesPlaced (n + start) attributes =
      (attributesPlaced start attributes).map (·.shifted n) := by
  induction attributes generalizing start with
  | nil => rfl
  | cons attr attributes ih =>
      rw [attributesPlaced, attributesPlaced, Nat.add_assoc, Nat.add_assoc, ih,
        CodeAttribute.placed?_add, List.map_append]
      cases attr.placed? (start + 1) <;> rfl

mutual

/-- The elements of a tree behind another text are those of the tree alone, moved. -/
theorem CodeElement.elements_add (element : CodeElement) (depth start : Nat) :
    element.elements depth (n + start) = (element.elements depth start).map (·.shifted n) := by
  match element with
  | .empty name attributes =>
      simp only [CodeElement.elements, List.map_cons, Nat.add_assoc n, attributesPlaced_add]
      exact List.cons_eq_cons.2 ⟨name.placed_add n _ _ true depth start none,
        attributesElements_add attributes _ _⟩
  | .full name attributes children =>
      simp only [CodeElement.elements, List.map_cons, List.map_append, Nat.add_assoc n,
        attributesPlaced_add, name.placedClosing_add]
      refine List.cons_eq_cons.2 ⟨name.placed_add n _ _ false depth start (some _), ?_⟩
      rw [attributesElements_add attributes, childrenElements_add children]

theorem CodeAttribute.elements_add (attr : CodeAttribute) (depth start : Nat) :
    attr.elements depth (n + start) = (attr.elements depth start).map (·.shifted n) := by
  match attr with
  | .plain _ _ | .text _ _ _ _ | .spread _ => rfl
  | .tree name _ element =>
      rw [CodeAttribute.elements, CodeAttribute.elements, Nat.add_assoc, element.elements_add]

theorem attributesElements_add (attributes : List CodeAttribute) (depth start : Nat) :
    attributesElements depth (n + start) attributes =
      (attributesElements depth start attributes).map (·.shifted n) := by
  match attributes with
  | [] => rfl
  | attr :: attributes =>
      rw [attributesElements, attributesElements, Nat.add_assoc, Nat.add_assoc, attr.elements_add,
        attributesElements_add attributes, List.map_append]

theorem CodeChild.elements_add (child : CodeChild) (depth start : Nat) :
    child.elements depth (n + start) = (child.elements depth start).map (·.shifted n) := by
  match child with
  | .text _ => rfl
  | .element element => exact element.elements_add depth start
  | .hole element =>
      rw [CodeChild.elements, CodeChild.elements, Nat.add_assoc, element.elements_add]

theorem childrenElements_add (children : List CodeChild) (depth start : Nat) :
    childrenElements depth (n + start) children =
      (childrenElements depth start children).map (·.shifted n) := by
  match children with
  | [] => rfl
  | child :: children =>
      rw [childrenElements, childrenElements, Nat.add_assoc, child.elements_add,
        childrenElements_add children, List.map_append]

end

end Shifts

/-! ### Elements behind a line -/

/-- A line of a module that assigns an element. -/
def assigned (element : CodeElement) : List Char :=
  "y = ".toList ++ ('<' :: (element.tail ++ [';']))

section Behind

variable {c : Cursor} {line text rest : List Char} {frame : Frame} {element : CodeElement}

theorem ofCode_eq_ok_iff {text : List Char} {elements : List Element} :
    Element.ofCode (String.ofList text) = .ok elements ↔
      findings [.code false 0] (.start text) = (elements, false) := by
  have hfound : findings [.code false 0] (.start text) =
      ((readCode false 0 0 (.start text)).val.elements,
        (readCode false 0 0 (.start text)).val.severed) := by
    simp [findings, Frame.read, Task.read]
  rw [Element.ofCode, String.toList_ofList, hfound]
  cases (readCode false 0 0 (.start text)).val.severed <;> simp

/-- In code, an assigned element is found with its tree. -/
theorem findings_assigned (inBraces : Bool) (openBraces : Nat) (outer : List Frame)
    (h : c.rest = assigned element) :
    findings (.code inBraces openBraces :: outer) c =
      (element.elements 0 (c.offset + 4), false) := by
  let tag := c.past "y = ".toList
  have htag : tag.rest = '<' :: (element.tail ++ [';']) := Cursor.rest_past _ h
  have hoffset : tag.offset = c.offset + 4 := Cursor.offset_past _ h
  have hbefore : Lexical.operandFollows tag.before = true := by
    rw [Cursor.before_past _ h]
    rfl
  have helement := reads_element element 0 (Cursor.offset_past ['<'] htag)
    (Cursor.rest_past ['<'] htag)
  have hafter : (tag.past ('<' :: element.tail)).rest = [';'] ++ [] :=
    Cursor.rest_past ('<' :: element.tail) htag
  have hend := Cursor.rest_past [';'] hafter
  have hread : Reads (.code inBraces openBraces 0) c _ :=
    .pastPlain (List.all_eq_true.1 rfl) h
      (.codeElement htag (element.opensElement hbefore _) helement
        (.pastPlain (List.all_eq_true.1 rfl) hafter (.codeEnd hend)))
  have hlater : findings outer (((tag.past ['<']).past element.tail).past [';']) = ([], false) :=
    findings_of_end outer hend
  rw [findings, Frame.read, hread.read_eq, ← hoffset]
  simp [Reading.andThen, Reading.having, Reading.found, hlater]

/-- Template literals and comments go on over characters that do not end them. -/
theorem findings_past (hframe : frame.isCode = false) (outer : List Frame)
    (htext : ∀ ch ∈ text, ch ∉ ['\x60', '\\', '$', '*']) (h : c.rest = text ++ rest) :
    findings (frame :: outer) c = findings (frame :: outer) (c.past text) := by
  induction text generalizing c with
  | nil => rfl
  | cons ch text ih =>
      have hch := htext ch List.mem_cons_self
      simp only [List.mem_cons, List.not_mem_nil, or_false, not_or] at hch
      obtain ⟨hclose, hescape, hhole, hstar⟩ := hch
      have hstep : frame.read c = frame.read c.advance := by
        cases frame with
        | code => cases hframe
        | template =>
            exact (Reads.templatePlain h (by simp [hclose, hescape]) (absurd · hhole)
              ((Task.template 0).reads _)).read_eq
        | comment => exact read_comment_step h fun _ heq => absurd heq hstar
      rw [findings_of_read_eq hstep]
      exact ih (fun other hother => htext other (List.mem_cons_of_mem _ hother))
        (Cursor.rest_past [ch] h)

theorem CodeElement.exists_start_eq (element : CodeElement) (depth start : Nat) :
    ∃ found ∈ element.elements depth start, found.span.start = start := by
  cases element with
  | empty | full => exact ⟨_, List.mem_cons_self, rfl⟩

/-- An assigned element is found with its tree in code, and only there. -/
theorem findings_assigned_iff {source : List Char} (frames : List Frame) (hin : c.IsIn source)
    (h : c.rest = assigned element) :
    findings frames c = (element.elements 0 (c.offset + 4), false) ↔
      frames.head?.any Frame.isCode = true := by
  obtain ⟨found, hmem, hstart⟩ := element.exists_start_eq 0 (c.offset + 4)
  cases frames with
  | nil =>
      refine iff_of_false (fun hfound => ?_) nofun
      rw [← (Prod.mk.inj hfound).1] at hmem
      cases hmem
  | cons frame outer =>
      cases hframe : frame.isCode with
      | true =>
          cases frame with
          | code => exact iff_of_true (findings_assigned _ _ outer h) rfl
          | template | comment => cases hframe
      | false =>
          refine iff_of_false (fun hfound => ?_) (by simp [hframe])
          have hopen : c.rest = "y = <".toList ++ (element.tail ++ [';']) := h
          rw [findings_past hframe outer (by simp) hopen] at hfound
          have hmem' : found ∈ (findings (frame :: outer) (c.past "y = <".toList)).1 := by
            rw [hfound]
            exact hmem
          have hle : (c.past "y = <".toList).offset ≤ found.span.start :=
            offset_le_of_mem_findings _ (hin.drop _) found hmem'
          have hoffset : (c.past "y = <".toList).offset = c.offset + 5 :=
            Cursor.offset_past _ hopen
          omega

theorem ofCode_assigned (element : CodeElement) :
    Element.ofCode (String.ofList (assigned element)) = .ok (element.elements 0 4) :=
  ofCode_eq_ok_iff.2 (findings_assigned false 0 [] rfl)

/-- **Elements behind a line.** They are found with the offsets that the line gives them exactly if no tag
opens in the line and its end is in code. -/
theorem ofCode_behind_iff (hline : [';', '\n'] <:+ line) (element : CodeElement) :
    Element.ofCode (String.ofList (line ++ assigned element)) =
        (Element.ofCode (String.ofList (assigned element))).map
          (List.map (·.shifted (utf8Length line))) ↔
      endsInCode line = true := by
  let c := Cursor.start (line ++ assigned element)
  have hends : line = [] ∨ EndsLine line := .inr (.inl hline)
  have hin : (c.past line).IsIn (line ++ assigned element) := (Cursor.isIn_start _).drop _
  have hoffset : (c.past line).offset = utf8Length line := by
    rw [Cursor.offset_past line rfl]
    exact Nat.zero_add _
  rw [ofCode_assigned, Except.map, ofCode_eq_ok_iff, endsInCode]
  cases hrun : framesBehind [.code false 0] 0 [] line with
  | none =>
      obtain ⟨found, hmem, hlt⟩ :=
        exists_of_framesBehind_eq_none hends (Nat.zero_le _) (c := c) rfl hrun
      refine iff_of_false (fun hfound => ?_) nofun
      obtain ⟨alone, -, rfl⟩ := List.mem_map.1 (congrArg Prod.fst hfound ▸ hmem)
      have hmoved : utf8Length line + alone.span.start < 0 + utf8Length line := hlt
      omega
  | some frames =>
      have hfound := findings_framesBehind hends (Nat.zero_le _) (c := c) rfl hrun
      have hmoved := element.elements_add (utf8Length line) 0 4
      rw [← hmoved, ← hoffset]
      exact (iff_of_eq (congrArg (· = _) hfound)).trans
        (findings_assigned_iff frames hin (Cursor.rest_past line rfl))

end Behind

/-! ### Regular expressions -/

/-- The characters that end a line of code. -/
def lineTerminators : List Char :=
  ['\n', '\r', '\u2028', '\u2029']

/-- A part of a class of characters in a regular expression. -/
inductive ClassPart where
  | char (ch : Char) (isPart : ch ∉ lineTerminators ++ ['\\', ']'])
  | escape (ch : Char) (isPart : ch ∉ lineTerminators)

/-- A part of a regular expression. -/
inductive RegexPart where
  | char (ch : Char) (isPart : ch ∉ lineTerminators ++ ['\\', '/', '['])
  | escape (ch : Char) (isPart : ch ∉ lineTerminators)
  | ofClass (parts : List ClassPart)

def ClassPart.chars : ClassPart → List Char
  | char ch _ => [ch]
  | escape ch _ => ['\\', ch]

def RegexPart.chars : RegexPart → List Char
  | char ch _ => [ch]
  | escape ch _ => ['\\', ch]
  | ofClass parts => '[' :: (parts.flatMap ClassPart.chars ++ [']'])

/-- What may stand between the slashes of a regular expression: neither nothing nor a star in front,
which make comments. -/
structure RegexBody where
  parts : List RegexPart
  nonempty : parts ≠ []
  noStar : (parts.flatMap RegexPart.chars).head? ≠ some '*'

namespace RegexBody

def chars (body : RegexBody) : List Char :=
  body.parts.flatMap RegexPart.chars

/-- A line of a module that assigns a regular expression. -/
def line (body : RegexBody) : List Char :=
  "x = ".toList ++ ('/' :: (body.chars ++ ['/', ';', '\n']))

theorem suffix_line (body : RegexBody) : [';', '\n'] <:+ body.line := by
  refine List.suffix_append_of_suffix (List.IsSuffix.trans ?_ (List.suffix_cons _ _))
  exact List.suffix_append_of_suffix (List.suffix_cons _ _)

end RegexBody

/-! ### What hides and what does not -/

section Bodies

variable {ch : Char} {line : List Char} {body : RegexBody}

theorem frameStep_plain (openBraces : Nat) (before : List Char) (htemplate : ch ≠ '\x60')
    (hless : ch ≠ '<') (hcomment : ∀ rest, ch = '/' → line ≠ '*' :: rest) :
    ∃ n passed,
      frameStep [.code false openBraces] before ch line = some ([.code false n], passed) := by
  generalize hframes : [Frame.code false openBraces] = frames
  fun_cases frameStep frames before ch line <;> cases hframes
  case case2 => exact absurd rfl htemplate
  case case3 | case5 | case9 => exact ⟨_, _, rfl⟩
  case case4 hleaves => exact absurd hleaves.2 Bool.false_ne_true
  case case6 | case7 => exact absurd rfl hless
  case case8 => exact absurd rfl (hcomment _ rfl)

/-- Quotes and braces leave no frame open: a string ends in its line. -/
theorem framesBehind_plain (passed openBraces : Nat) (before : List Char)
    (htemplate : '\x60' ∉ line) (hless : '<' ∉ line) (hcomment : ¬['/', '*'] <:+: line) :
    ∃ n, framesBehind [.code false openBraces] passed before line = some [.code false n] := by
  induction line generalizing passed openBraces before with
  | nil => exact ⟨openBraces, by cases passed <;> rfl⟩
  | cons ch line ih =>
      obtain ⟨hticks, htemplate⟩ := not_or.1 fun h => htemplate (List.mem_cons.2 h)
      obtain ⟨hopens, hless⟩ := not_or.1 fun h => hless (List.mem_cons.2 h)
      have hblock : ∀ rest, ch = '/' → line ≠ '*' :: rest := by
        rintro rest rfl rfl
        exact hcomment ⟨[], rest, rfl⟩
      cases passed with
      | succ passed => exact ih passed openBraces _ htemplate hless (not_isInfix_tail hcomment)
      | zero =>
          obtain ⟨n, passed, hstep⟩ := frameStep_plain openBraces before (Ne.symm hticks)
            (Ne.symm hopens) hblock
          rw [framesBehind, hstep]
          exact ih passed n _ htemplate hless (not_isInfix_tail hcomment)

/-- Two characters side by side in a text of two parts are in one of these, or where they meet. -/
theorem isInfix_pair_append {first second : Char} {front back : List Char}
    (h : [first, second] <:+: front ++ back) :
    [first, second] <:+: front ∨ [first, second] <:+: back ∨ back.head? = some second := by
  rcases List.infix_append_iff_ne_nil.1 h with hfront | hback | ⟨_, _, hne, hne', hsplit, -, hprefix⟩
  · exact .inl hfront
  · exact .inr (.inl hback)
  · obtain ⟨_, chars, rfl⟩ := List.exists_cons_of_ne_nil hne
    obtain ⟨ch, others, rfl⟩ := List.exists_cons_of_ne_nil hne'
    obtain ⟨after, rfl⟩ := hprefix
    obtain ⟨-, hmeet⟩ := List.cons.inj hsplit
    cases chars with
    | nil => exact .inr (.inr (congrArg List.head? hmeet).symm)
    | cons => simp at hmeet

theorem RegexBody.notMem_line (h : ch ∉ body.chars)
    (haround : ch ∉ ['x', ' ', '=', '/', ';', '\n']) : ch ∉ body.line := by
  simp only [List.mem_cons, not_or] at haround
  simp [RegexBody.line, h, haround]

theorem RegexBody.noComment (h : ¬['/', '*'] <:+: body.chars) : ¬['/', '*'] <:+: body.line := by
  intro hline
  rcases isInfix_pair_append hline with hfront | hbehind | hstar
  · exact absurd hfront (by decide)
  · rcases @isInfix_pair_append _ _ ['/'] _ hbehind with hslash | hinside | hstar
    · exact absurd hslash (by decide)
    · rcases isInfix_pair_append hinside with hchars | hback | hstar
      · exact h hchars
      · exact absurd hback (by decide)
      · cases hstar
    · cases hchars : body.chars with
      | nil => simp [hchars] at hstar
      | cons ch chars =>
          rw [hchars] at hstar
          exact body.noStar ((congrArg List.head? hchars).trans hstar)
  · cases hstar

/-- **What hides nothing.** Behind a regular expression with no backtick, no angle bracket that opens and
no slash before a star, there is code, whatever quotes it holds. -/
theorem endsInCode_of_plain (htemplate : '\x60' ∉ body.chars) (hless : '<' ∉ body.chars)
    (hcomment : ¬['/', '*'] <:+: body.chars) : endsInCode body.line = true := by
  obtain ⟨n, hrun⟩ := framesBehind_plain 0 0 []
    (body.notMem_line htemplate (by decide)) (body.notMem_line hless (by decide))
    (body.noComment hcomment)
  rw [endsInCode, hrun]
  rfl

/-- A slash before a star opens a comment, also in a class of characters. -/
example : endsInCode "x = /[/*]/;\n".toList = false := by decide

theorem frameStep_template (outer : List Frame) (before : List Char) (hclose : ch ≠ '\x60')
    (hhole : ch ≠ '$') :
    ∃ passed, frameStep (.template :: outer) before ch line = some (.template :: outer, passed) := by
  generalize hframes : Frame.template :: outer = frames
  fun_cases frameStep frames before ch line <;> cases hframes
  case case10 => exact absurd rfl hclose
  case case11 | case13 => exact ⟨_, rfl⟩
  case case12 => exact absurd rfl hhole

theorem framesBehind_template (passed : Nat) (before : List Char) (outer : List Frame)
    (hclose : '\x60' ∉ line) (hhole : '$' ∉ line) :
    framesBehind (.template :: outer) passed before line = some (.template :: outer) := by
  induction line generalizing passed before with
  | nil => cases passed <;> rfl
  | cons ch line ih =>
      obtain ⟨hticks, hclose⟩ := not_or.1 fun h => hclose (List.mem_cons.2 h)
      obtain ⟨hdollar, hhole⟩ := not_or.1 fun h => hhole (List.mem_cons.2 h)
      cases passed with
      | succ passed => exact ih passed _ hclose hhole
      | zero =>
          obtain ⟨passed, hstep⟩ :=
            frameStep_template outer before (Ne.symm hticks) (Ne.symm hdollar)
          rw [framesBehind, hstep]
          exact ih passed _ hclose hhole

/-- A character that opens nothing leaves the frames as they are. -/
theorem frameStep_bare {before rest : List Char} (hch : ch ∉ ['\x60', '{', '}', '<', '\'', '"'])
    (hslash : ch = '/' → ∀ next ∈ rest.head?, next ∉ ['/', '*']) :
    frameStep [.code false 0] before ch rest = some ([.code false 0], 0) := by
  have hone : Lexical.plainLength (ch :: rest) = 1 := by
    unfold Lexical.plainLength
    split <;> simp_all
  generalize hframes : [Frame.code false 0] = frames
  fun_cases frameStep frames before ch rest <;> simp_all

theorem framesBehind_past (before text rest : List Char)
    (htext : ∀ ch ∈ text, isPlainChar ch = true) :
    ∃ before', framesBehind [.code false 0] 0 before (text ++ rest) =
      framesBehind [.code false 0] 0 before' rest := by
  induction text generalizing before with
  | nil => exact ⟨before, rfl⟩
  | cons ch text ih =>
      obtain ⟨hch, htext⟩ := List.forall_mem_cons.1 htext
      have hbare : ch ∉ ['\x60', '{', '}', '<', '\'', '"'] ∧ ch ≠ '/' := by
        simp_all [isPlainChar]
      obtain ⟨before', hrun⟩ := ih (ch :: before) htext
      refine ⟨before', ?_⟩
      rw [List.cons_append, framesBehind, frameStep_bare hbare.1 (absurd · hbare.2), ← hrun]

/-- **What hides everything.** Behind a regular expression with one backtick and no hole, all is taken for
a template literal. -/
theorem endsInCode_of_backtick {front back : List Char} (h : body.chars = front ++ '\x60' :: back)
    (hfront : ∀ ch ∈ front, isPlainChar ch = true) (hclose : '\x60' ∉ back) (hhole : '$' ∉ back) :
    endsInCode body.line = false := by
  have hslash : ∀ next ∈ (front ++ '\x60' :: (back ++ ['/', ';', '\n'])).head?,
      next ∉ ['/', '*'] := by
    intro next hnext
    cases front with
    | nil =>
        obtain rfl := Option.some.inj hnext
        decide
    | cons ch front =>
        obtain rfl : ch = next := Option.some.inj hnext
        have hplain := hfront ch List.mem_cons_self
        have hstar : ch ≠ '*' := fun heq => body.noStar (heq ▸ congrArg List.head? h)
        simp_all [isPlainChar]
  obtain ⟨before, hopen⟩ := framesBehind_past [] "x = ".toList
    ('/' :: (front ++ '\x60' :: (back ++ ['/', ';', '\n']))) (List.all_eq_true.1 rfl)
  obtain ⟨before', hinside⟩ := framesBehind_past ('/' :: before) front
    ('\x60' :: (back ++ ['/', ';', '\n'])) hfront
  have hrun : framesBehind [.code false 0] 0 [] body.line = some [.template, .code false 0] := by
    rw [RegexBody.line, h, List.append_assoc, List.cons_append, hopen, framesBehind,
      frameStep_bare (by decide) fun _ => hslash]
    exact hinside.trans (framesBehind_template 0 _ _ (by simpa using hclose) (by simpa using hhole))
  rw [endsInCode, hrun]
  rfl

end Bodies

/-! ### Elements behind regular expressions -/

/-- **Regular expressions.** An element behind one is found as without it, with moved offsets, exactly if
the characters of the regular expression, read as code, open no tag and leave nothing open. -/
theorem ofCode_behind_regex_iff (body : RegexBody) (element : CodeElement) :
    Element.ofCode (String.ofList (body.line ++ assigned element)) =
        (Element.ofCode (String.ofList (assigned element))).map
          (List.map (·.shifted (utf8Length body.line))) ↔
      endsInCode body.line = true :=
  ofCode_behind_iff body.suffix_line element

/-- The regular expression that looks for a backtick. -/
def backtickRegex : RegexBody where
  parts := [.char '\x60' (by decide)]
  nonempty := List.cons_ne_nil _ _
  noStar := by decide

def emptyElement : CodeElement :=
  .empty ⟨'B', rfl, ⟨['o', 'x'], List.all_eq_true.1 rfl⟩⟩ []

/-- **A backtick hides tags.** Behind a regular expression with one backtick, an element is not found that
is found without it. -/
theorem hidden_behind_backtick :
    Element.ofCode (String.ofList (backtickRegex.line ++ assigned emptyElement)) = .ok [] ∧
      (Element.ofCode (String.ofList (assigned emptyElement))).map
          (List.map (·.shifted (utf8Length backtickRegex.line))) =
        .ok [⟨"Box", ⟨14, 17⟩, ⟨13, 19⟩, [], 17, true, 0, none⟩] := by
  constructor
  · exact ofCode_eq_ok_iff.2 (by decide +kernel)
  · rw [ofCode_assigned]
    exact congrArg Except.ok (by decide)

end ComponentTags
