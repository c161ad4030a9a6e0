import ComponentTags.Element.Code
import ComponentTags.Proofs.Element.QuietCode
import ComponentTags.Proofs.Element.TagStructure

/-!
What a line of code leaves open. Reading code goes into template literals, into the code in these and
into comments; a line may end within. Which of these are open behind a line is told by the line alone,
whatever follows it, unless a tag opens in the line.
-/

namespace ComponentTags

/-- What a reader of code is in the midst of. -/
inductive Frame where
  | code (inBraces : Bool) (openBraces : Nat)
  | template
  | comment
deriving DecidableEq, Repr

/-- What is read in a frame, up to where it is left. -/
def Frame.read : Frame → Cursor → Reading Unit
  | code inBraces openBraces, c => (Task.code inBraces openBraces 0).read c
  | template, c => (Task.template 0).read c
  | comment, c => .found () (c.drop (lengthPast ['*', '/'] c.rest))

def Frame.isCode : Frame → Bool
  | code _ _ => true
  | template | comment => false

/-- What is found when frames are read from a place on, the innermost one first, and whether an element
is severed there. -/
def findings : List Frame → Cursor → List Element × Bool
  | [], _ => ([], false)
  | frame :: outer, c =>
      let reading := frame.read c
      let later := findings outer reading.next
      (reading.elements ++ later.1, reading.severed || later.2)

/-- The frames behind one character, and how many further characters are passed with it; none if the
character opens a tag. -/
def frameStep : List Frame → (before : List Char) → Char → (rest : List Char) →
    Option (List Frame × Nat)
  | [], _, _, _ => some ([], 0)
  | .code inBraces openBraces :: outer, before, ch, rest =>
      match ch, rest with
      | '\x60', _ => some (.template :: .code inBraces openBraces :: outer, 0)
      | '{', _ => some (.code inBraces (openBraces + 1) :: outer, 0)
      | '}', _ =>
          if openBraces = 0 ∧ inBraces = true then some (outer, 0)
          else some (.code inBraces (openBraces - 1) :: outer, 0)
      | '<', rest =>
          if opensElement before rest then none
          else some (.code inBraces openBraces :: outer, 0)
      | '/', '*' :: _ => some (.comment :: .code inBraces openBraces :: outer, 1)
      | ch, rest =>
          some (.code inBraces openBraces :: outer, Lexical.plainLength (ch :: rest) - 1)
  | .template :: outer, _, ch, rest =>
      match ch, rest with
      | '\x60', _ => some (outer, 0)
      | '\\', _ => some (.template :: outer, 1)
      | '$', '{' :: _ => some (.code true 0 :: .template :: outer, 1)
      | _, _ => some (.template :: outer, 0)
  | .comment :: outer, _, ch, rest =>
      match ch, rest with
      | '*', '/' :: _ => some (outer, 1)
      | _, _ => some (.comment :: outer, 0)

/-- The frames behind a line, of which some characters are passed already; none if a tag opens in it. -/
def framesBehind : List Frame → (passed : Nat) → (before line : List Char) → Option (List Frame)
  | frames, _, _, [] => some frames
  | frames, passed + 1, before, ch :: line => framesBehind frames passed (ch :: before) line
  | frames, 0, before, ch :: line =>
      match frameStep frames before ch line with
      | none => none
      | some (frames, passed) => framesBehind frames passed (ch :: before) line

/-- Behind the line there is code again, and no tag opens in it. -/
def endsInCode (line : List Char) : Bool :=
  (framesBehind [.code false 0] 0 [] line).any fun frames => frames.head?.any Frame.isCode

/-- What is left of a line of code that ends with a semicolon. -/
def EndsLine (line : List Char) : Prop :=
  [';', '\n'] <:+ line ∨ line = ['\n']

section Lines

variable {c : Cursor} {line more rest : List Char} {ch quote : Char} {frame inner : Frame}
  {frames frames' outer : List Frame}

/-! ### Lines -/

theorem EndsLine.tail (h : EndsLine (ch :: line)) : line = [] ∨ EndsLine line := by
  rcases h with hends | hline
  · rcases List.suffix_cons_iff.1 hends with heq | hends
    · obtain ⟨-, rfl⟩ := List.cons.inj heq
      exact .inr (.inr rfl)
    · exact .inr (.inl hends)
  · exact .inl (List.cons.inj hline).2

theorem EndsLine.ne_nil (h : EndsLine line) : line ≠ [] := by
  rintro rfl
  rcases h with hends | hline
  · exact absurd (List.suffix_nil.1 hends) (List.cons_ne_nil _ _)
  · cases hline

/-- What follows another character than the line feed is not the end of the text. -/
theorem EndsLine.tail_of_ne (h : EndsLine (ch :: line)) (hbreak : ch ≠ '\n') : EndsLine line := by
  refine h.tail.resolve_left ?_
  rintro rfl
  rcases h with hends | hline
  · exact absurd hends.length_le (Nat.not_succ_le_self 1)
  · exact hbreak (List.cons.inj hline).1

/-- Behind another character than the semicolon and the line feed there is still the semicolon. -/
theorem EndsLine.exists_append (h : EndsLine (ch :: line)) (hch : ch ≠ ';') (hbreak : ch ≠ '\n') :
    ∃ front, line = front ++ [';', '\n'] := by
  rcases h with hends | hline
  · rcases List.suffix_cons_iff.1 hends with heq | ⟨front, hfront⟩
    · exact absurd (List.cons.inj heq).1.symm hch
    · exact ⟨front, hfront.symm⟩
  · exact absurd (List.cons.inj hline).1 hbreak

/-! ### Strings and comments end where they do in the line -/

theorem lengthPast_le (pattern text : List Char) : lengthPast pattern text ≤ text.length := by
  fun_induction lengthPast pattern text with
  | case1 => exact Nat.le_refl _
  | case2 ch rest hprefix => exact (List.isPrefixOf_iff_prefix.1 hprefix).length_le
  | case3 ch rest _ ih => exact Nat.succ_le_succ ih

theorem stringLength_le (quote : Char) (text : List Char) :
    Lexical.stringLength quote text ≤ text.length := by
  fun_induction Lexical.stringLength quote text with
  | case1 | case2 => simp
  | case3 ch rest ih => exact Nat.add_le_add_right ih 2
  | case4 | case5 => simp
  | case6 ch rest _ _ _ _ ih => exact Nat.succ_le_succ ih

theorem plainLength_le (text : List Char) : Lexical.plainLength text ≤ text.length := by
  fun_cases Lexical.plainLength text with
  | case1 => exact Nat.le_refl _
  | case2 rest | case3 rest => exact Nat.add_le_add_right (lengthPast_le _ _) 2
  | case4 rest | case5 rest => exact Nat.add_le_add_right (stringLength_le _ _) 1
  | case6 => simp

theorem lengthPast_append_of_mem (h : ch ∈ line) (more : List Char) :
    lengthPast [ch] (line ++ more) = lengthPast [ch] line := by
  induction line with
  | nil => cases h
  | cons other line ih =>
      rw [List.cons_append, lengthPast, lengthPast]
      by_cases heq : ch = other
      · simp [heq]
      · rw [if_neg (by simp [heq]), if_neg (by simp [heq]),
          ih ((List.mem_cons.1 h).resolve_left heq)]

/-- A backslash that a line goes on behind escapes something. -/
theorem ne_backslash_of_noEscape (hnil : ch = '\\' → rest = [] → False)
    (hcons : ∀ (other : Char) (more : List Char), ch = '\\' → rest = other :: more → False) :
    ch ≠ '\\' := by
  intro heq
  cases rest with
  | nil => exact hnil heq rfl
  | cons other more => exact hcons other more heq rfl

/-- A string ends in its line, whatever follows the line. -/
theorem stringLength_append_of_endsLine (h : EndsLine line) (more : List Char) :
    Lexical.stringLength quote (line ++ more) = Lexical.stringLength quote line := by
  fun_induction Lexical.stringLength quote line with
  | case1 => exact absurd rfl h.ne_nil
  | case2 => exact absurd rfl (h.tail_of_ne (by decide)).ne_nil
  | case3 ch rest ih =>
      obtain ⟨front, hfront⟩ := h.exists_append (by decide) (by decide)
      have hrest : EndsLine rest := by
        cases front with
        | nil =>
            obtain ⟨-, rfl⟩ := List.cons.inj hfront
            exact .inr rfl
        | cons other front => exact .inl ⟨front, (List.cons.inj hfront).2.symm⟩
      rw [List.cons_append, List.cons_append, Lexical.stringLength, ih hrest]
  | case4 rest => simp [Lexical.stringLength]
  | case5 rest hnil hcons hbreak =>
      have hslash := ne_backslash_of_noEscape hnil hcons
      simp [Lexical.stringLength, hslash, hbreak]
  | case6 ch rest hnil hcons hbreak hquote ih =>
      have hslash := ne_backslash_of_noEscape hnil hcons
      rw [List.cons_append, stringLength_cons_of_ne hslash hquote hbreak, ih (h.tail_of_ne hbreak)]

theorem EndsLine.mem (h : EndsLine line) : '\n' ∈ line := by
  rcases h with hends | rfl
  · exact hends.subset (by decide)
  · exact List.mem_cons_self

/-- What is passed with a character in code does not depend on what follows its line, unless a comment
is opened. -/
theorem plainLength_append_of_endsLine (h : EndsLine (ch :: line))
    (hcomment : ∀ rest, ch = '/' → line ≠ '*' :: rest) (more : List Char) :
    Lexical.plainLength (ch :: (line ++ more)) = Lexical.plainLength (ch :: line) := by
  generalize htext : ch :: line = text
  fun_cases Lexical.plainLength text with
  | case1 => cases htext
  | case2 rest =>
      obtain ⟨rfl, rfl⟩ := List.cons.inj htext
      have hrest := (h.tail_of_ne (by decide)).tail_of_ne (by decide)
      rw [List.cons_append, Lexical.plainLength, lengthPast_append_of_mem hrest.mem]
  | case3 rest =>
      obtain ⟨rfl, rfl⟩ := List.cons.inj htext
      exact absurd rfl (hcomment rest rfl)
  | case4 rest | case5 rest =>
      obtain ⟨rfl, rfl⟩ := List.cons.inj htext
      rw [Lexical.plainLength, stringLength_append_of_endsLine (h.tail_of_ne (by decide))]
  | case6 head rest hslashes hblock hsingle hdouble =>
      obtain ⟨rfl, rfl⟩ := List.cons.inj htext
      cases line with
      | nil =>
          have hbreak : ch = '\n' :=
            Decidable.byContradiction fun hne => (h.tail_of_ne hne).ne_nil rfl
          rw [hbreak]
          rfl
      | cons next line => simp_all [Lexical.plainLength]

/-! ### What follows a semicolon does not open an element before it -/

section Semicolons

variable {p : Char → Bool} {stop : Char} {pattern : List Char}

theorem takeWhile_append_stop (hstop : p stop = false) (front more : List Char) :
    (front ++ stop :: more).takeWhile p = front.takeWhile p := by
  induction front with
  | nil => simp [hstop]
  | cons ch front ih => simp [List.takeWhile_cons, ih]

theorem dropWhile_append_stop (hstop : p stop = false) (front more : List Char) :
    (front ++ stop :: more).dropWhile p = front.dropWhile p ++ stop :: more := by
  induction front with
  | nil => simp [hstop]
  | cons ch front ih =>
      cases hch : p ch <;> simp [hch, ih]

theorem isPrefixOf_append_stop (hstop : stop ∉ pattern) (front more : List Char) :
    pattern.isPrefixOf (front ++ stop :: more) = pattern.isPrefixOf front := by
  induction pattern generalizing front with
  | nil => simp
  | cons first others ih =>
      obtain ⟨hfirst, hothers⟩ := not_or.1 fun h => hstop (List.mem_cons.2 h)
      cases front with
      | nil =>
          rw [List.nil_append, List.isPrefixOf_cons_cons, beq_false_of_ne (Ne.symm hfirst)]
          rfl
      | cons ch front =>
          rw [List.cons_append, List.isPrefixOf_cons_cons, List.isPrefixOf_cons_cons, ih hothers]

theorem parameterFollows_append (front more : List Char) :
    parameterFollows (front ++ ';' :: more) = parameterFollows (front ++ [';']) := by
  have hhead : ∀ text : List Char, (text ++ ';' :: more).head? = (text ++ [';']).head? := by
    intro text
    cases text <;> rfl
  rw [parameterFollows, parameterFollows, hhead front, isPrefixOf_append_stop (by decide),
    isPrefixOf_append_stop (by decide)]
  cases hprefix : "extends".toList.isPrefixOf front with
  | false => rfl
  | true =>
      have hlength : 7 ≤ front.length := (List.isPrefixOf_iff_prefix.1 hprefix).length_le
      rw [List.drop_append_of_le_length hlength, List.drop_append_of_le_length hlength, hhead]

theorem opensElement_append (before front more : List Char) :
    opensElement before (front ++ ';' :: more) = opensElement before (front ++ [';']) := by
  have helement : Lexical.elementFollows (front ++ ';' :: more) =
      Lexical.elementFollows (front ++ [';']) := by
    cases front <;> rfl
  have hparameters : Lexical.typeParametersFollow (front ++ ';' :: more) =
      Lexical.typeParametersFollow (front ++ [';']) := by
    have hword : Lexical.isWordChar ';' = false := by decide
    have hblank : Ascii.isBlank ';' = false := by decide
    rw [Lexical.typeParametersFollow, Lexical.typeParametersFollow, takeWhile_append_stop hword,
      takeWhile_append_stop hword, dropWhile_append_stop hword, dropWhile_append_stop hword,
      dropWhile_append_stop hblank, dropWhile_append_stop hblank]
    split
    · rfl
    · exact parameterFollows_append _ _
  rw [opensElement, opensElement, helement, hparameters]

/-- Whether a `<` opens an element does not depend on what follows its line. -/
theorem EndsLine.opensElement_append (h : EndsLine ('<' :: line)) (before more : List Char) :
    opensElement before (line ++ more) = opensElement before line := by
  obtain ⟨front, rfl⟩ := h.exists_append (by decide) (by decide)
  rw [List.append_assoc, List.cons_append, ComponentTags.opensElement_append,
    ← ComponentTags.opensElement_append before front ['\n']]

end Semicolons

/-! ### Steps -/

theorem findings_of_read_eq {c' : Cursor} (h : frame.read c = inner.read c')
    (outer : List Frame) : findings (frame :: outer) c = findings (inner :: outer) c' := by
  rw [findings, findings, h]

/-- A frame that is left goes on with the outer ones. -/
theorem findings_of_left {c' : Cursor} (h : frame.read c = .found () c') (outer : List Frame) :
    findings (frame :: outer) c = findings outer c' := by
  rw [findings, h]
  rfl

/-- A frame that goes on behind another one is read behind that. -/
theorem findings_of_entered {c' : Cursor}
    (h : frame.read c = (inner.read c').andThen (frame.read (inner.read c').next))
    (outer : List Frame) :
    findings (frame :: outer) c = findings (inner :: frame :: outer) c' := by
  simp only [findings, h, Reading.andThen, List.append_assoc, Bool.or_assoc]

/-- A comment is read behind the two characters that open it. -/
theorem read_code_toComment {inBraces : Bool} {openBraces : Nat} (h : c.rest = '/' :: '*' :: rest) :
    (Frame.code inBraces openBraces).read c =
      (Frame.comment.read (c.drop 2)).andThen
        ((Frame.code inBraces openBraces).read (Frame.comment.read (c.drop 2)).next) := by
  have hrest : (c.drop 2).rest = rest := Cursor.rest_past ['/', '*'] h
  have hplain := Reads.codePlain h (by decide)
    ((Task.code inBraces openBraces 0).reads (c.drop (Lexical.plainLength ('/' :: '*' :: rest))))
  rw [Lexical.plainLength, Nat.add_comm, Cursor.drop_add] at hplain
  rw [Frame.read.eq_3, hrest, Reading.found_andThen]
  exact hplain.read_eq

theorem read_comment_step (h : c.rest = ch :: rest)
    (hstays : ∀ after, ch = '*' → rest ≠ '/' :: after) :
    Frame.comment.read c = Frame.comment.read c.advance := by
  have hrest : c.advance.rest = rest := Cursor.rest_past [ch] h
  have hprefix : ['*', '/'].isPrefixOf (ch :: rest) = false := by
    refine isPrefixOf_eq_false ?_
    rintro ⟨after, hafter⟩
    obtain ⟨hch, hrest'⟩ := List.cons.inj hafter
    exact hstays after hch.symm hrest'.symm
  rw [Frame.read, Frame.read, h, hrest, lengthPast, hprefix]
  rfl

/-- **A step.** What is found from a character of a line on is found from behind it, in the frames that
are open there. -/
theorem findings_frameStep {passed : Nat} (hline : EndsLine (ch :: line))
    (h : c.rest = ch :: (line ++ more))
    (hstep : frameStep frames c.before ch line = some (frames', passed)) :
    passed ≤ line.length ∧ findings frames c = findings frames' (c.advance.drop passed) := by
  generalize hbefore : c.before = before at hstep
  revert hline h hstep
  fun_cases frameStep frames before ch line <;> rintro hline h ⟨⟩
  case case1 => exact ⟨Nat.zero_le _, rfl⟩
  case case2 inBraces openBraces outer =>
    refine ⟨Nat.zero_le _, findings_of_entered ?_ outer⟩
    exact (Reads.codeTemplate h ((Task.template 0).reads _)
      ((Task.code inBraces openBraces 0).reads _)).read_eq
  case case3 inBraces openBraces outer =>
    refine ⟨Nat.zero_le _, findings_of_read_eq ?_ outer⟩
    exact (Reads.codeOpen h ((Task.code inBraces (openBraces + 1) 0).reads _)).read_eq
  case case4 inBraces openBraces hleaves =>
    obtain ⟨rfl, rfl⟩ := hleaves
    refine ⟨Nat.zero_le _, findings_of_left ?_ frames'⟩
    have hread : Reads (.code true 0 0) c _ := .codeLeave h
    exact hread.read_eq
  case case5 inBraces openBraces outer hstays =>
    refine ⟨Nat.zero_le _, findings_of_read_eq ?_ outer⟩
    exact (Reads.codeClose h hstays ((Task.code inBraces (openBraces - 1) 0).reads _)).read_eq
  case case7 inBraces openBraces outer hopens =>
    refine ⟨Nat.zero_le _, findings_of_read_eq ?_ outer⟩
    have hopens' : opensElement c.before (line ++ more) = false := by
      rw [hbefore, hline.opensElement_append]
      exact Bool.eq_false_iff.2 hopens
    exact (Reads.codeLess h hopens' ((Task.code inBraces openBraces 0).reads _)).read_eq
  case case8 inBraces openBraces outer rest =>
    exact ⟨Nat.le_add_left _ _, findings_of_entered (read_code_toComment h) outer⟩
  case case9 inBraces openBraces outer htemplate hopen hclose hless hcomment =>
    have hplain : ch ∉ ['\x60', '{', '}', '<'] := by
      simpa using ⟨htemplate, hopen, hclose, hless⟩
    have hpos := Lexical.plainLength_pos (List.cons_ne_nil ch line)
    obtain ⟨n, hn⟩ := Nat.exists_eq_succ_of_ne_zero (Nat.ne_of_gt hpos)
    have hle := plainLength_le (ch :: line)
    have hlength : Lexical.plainLength (ch :: (line ++ more)) = n + 1 := by
      rw [plainLength_append_of_endsLine hline (fun rest hch => hcomment rest hch) more, hn]
    rw [hn] at hle ⊢
    refine ⟨Nat.le_of_succ_le_succ hle, findings_of_read_eq ?_ outer⟩
    have hread := Reads.codePlain h hplain ((Task.code inBraces openBraces 0).reads _)
    rw [hlength] at hread
    exact hread.read_eq
  case case10 =>
    refine ⟨Nat.zero_le _, findings_of_left ?_ frames'⟩
    have hread : Reads (.template 0) c _ := .templateClose h
    exact hread.read_eq
  case case11 outer =>
    have hlength := List.length_pos_iff.2 (hline.tail_of_ne (by decide)).ne_nil
    refine ⟨hlength, findings_of_read_eq ?_ outer⟩
    exact (Reads.templateEscape h ((Task.template 0).reads _)).read_eq
  case case12 outer rest =>
    refine ⟨Nat.le_add_left _ _, findings_of_entered ?_ outer⟩
    exact (Reads.templateHole h ((Task.code true 0 0).reads _) ((Task.template 0).reads _)).read_eq
  case case13 outer hclose hescape hhole =>
    refine ⟨Nat.zero_le _, findings_of_read_eq ?_ outer⟩
    have hplain : ch ∉ ['\x60', '\\'] := by simpa using ⟨hclose, hescape⟩
    have hnone : ch = '$' → ∀ rest, line ++ more ≠ '{' :: rest := by
      rintro rfl rest heq
      obtain ⟨next, others, rfl⟩ := List.exists_cons_of_ne_nil (hline.tail_of_ne (by decide)).ne_nil
      exact hhole others rfl ((List.cons.inj heq).1 ▸ rfl)
    exact (Reads.templatePlain h hplain hnone ((Task.template 0).reads _)).read_eq
  case case14 rest =>
    refine ⟨Nat.le_add_left _ _, findings_of_left ?_ frames'⟩
    rw [Frame.read.eq_3, h]
    rfl
  case case15 outer hend =>
    refine ⟨Nat.zero_le _, findings_of_read_eq (read_comment_step h ?_) outer⟩
    rintro after rfl heq
    obtain ⟨next, others, rfl⟩ := List.exists_cons_of_ne_nil (hline.tail_of_ne (by decide)).ne_nil
    exact hend others rfl ((List.cons.inj heq).1 ▸ rfl)

/-- A tag that opens is an element from there on. -/
theorem exists_start_eq (depth start : Nat) (c : Cursor) :
    ∃ element ∈ ((Task.element depth start).read c).elements, element.span.start = start := by
  have hopening := (Task.openingTag .code depth start).reads c
  have hstart : ((Task.openingTag .code depth start).read c).value.span.start = start := by
    have hread : Reads (.openingTag .code depth start) c _ :=
      .openingTag rfl ((Task.tagBody .code depth _).reads _)
    rw [hread.read_eq]
    rfl
  cases hself : ((Task.openingTag .code depth start).read c).value.selfClosing with
  | true =>
      rw [(Reads.elementEmpty hopening hself).read_eq]
      exact ⟨_, List.mem_cons_self, hstart⟩
  | false =>
      rw [(Reads.elementFull hopening hself ((Task.children depth).reads _)).read_eq]
      exact ⟨_, List.mem_append_left _ List.mem_cons_self, hstart⟩

theorem exists_of_frameStep_eq_none (hline : EndsLine (ch :: line))
    (h : c.rest = ch :: (line ++ more)) (hstep : frameStep frames c.before ch line = none) :
    ∃ element ∈ (findings frames c).1, element.span.start = c.offset := by
  generalize hbefore : c.before = before at hstep
  revert hline h hstep
  fun_cases frameStep frames before ch line <;> rintro hline h ⟨⟩
  case case6 inBraces openBraces outer hopens =>
    have hopens' : opensElement c.before (line ++ more) = true := by
      rw [hbefore, hline.opensElement_append]
      exact hopens
    have hread := Reads.codeElement h hopens' ((Task.element 0 c.offset).reads c.advance)
      ((Task.code inBraces openBraces 0).reads _)
    obtain ⟨element, hmem, hstart⟩ := exists_start_eq 0 c.offset c.advance
    refine ⟨element, ?_, hstart⟩
    rw [findings, Frame.read, hread.read_eq]
    exact List.mem_append_left _ (List.mem_append_left _ hmem)

/-! ### Runs -/

/-- **A run.** What is found from the start of a line on is found from its end on, in the frames that
are open there. -/
theorem findings_framesBehind {passed : Nat} (hline : line = [] ∨ EndsLine line)
    (hpassed : passed ≤ line.length) (h : c.rest = line ++ more)
    (hrun : framesBehind frames passed c.before line = some frames') :
    findings frames (c.drop passed) = findings frames' (c.past line) := by
  induction line generalizing c frames passed with
  | nil =>
      obtain rfl := Nat.le_zero.1 hpassed
      obtain rfl : frames = frames' := Option.some.inj hrun
      rfl
  | cons ch line ih =>
      have hends := hline.resolve_left (List.cons_ne_nil _ _)
      have hrest : c.advance.rest = line ++ more := Cursor.rest_past [ch] h
      have hbefore : c.advance.before = ch :: c.before := Cursor.before_past [ch] h
      cases passed with
      | succ passed =>
          rw [framesBehind, ← hbefore] at hrun
          exact ih hends.tail (Nat.le_of_succ_le_succ hpassed) hrest hrun
      | zero =>
          rw [framesBehind] at hrun
          split at hrun
          · cases hrun
          · next frames'' passed hstep =>
              obtain ⟨hle, hsame⟩ := findings_frameStep hends h hstep
              rw [← hbefore] at hrun
              exact hsame.trans (ih hends.tail hle hrest hrun)

theorem exists_of_framesBehind_eq_none {passed : Nat} (hline : line = [] ∨ EndsLine line)
    (hpassed : passed ≤ line.length) (h : c.rest = line ++ more)
    (hrun : framesBehind frames passed c.before line = none) :
    ∃ element ∈ (findings frames (c.drop passed)).1,
      element.span.start < c.offset + utf8Length line := by
  induction line generalizing c frames passed with
  | nil => cases hrun
  | cons ch line ih =>
      have hends := hline.resolve_left (List.cons_ne_nil _ _)
      have hrest : c.advance.rest = line ++ more := Cursor.rest_past [ch] h
      have hbefore : c.advance.before = ch :: c.before := Cursor.before_past [ch] h
      have hoffset : c.advance.offset + utf8Length line = c.offset + utf8Length (ch :: line) := by
        rw [Cursor.advance_of_rest h, utf8Length, Nat.add_assoc]
      cases passed with
      | succ passed =>
          rw [framesBehind, ← hbefore] at hrun
          rw [← hoffset]
          exact ih hends.tail (Nat.le_of_succ_le_succ hpassed) hrest hrun
      | zero =>
          rw [framesBehind] at hrun
          split at hrun
          · next hstep =>
              obtain ⟨element, hmem, hstart⟩ := exists_of_frameStep_eq_none hends h hstep
              have hsize := ch.utf8Size_pos
              refine ⟨element, hmem, ?_⟩
              rw [hstart, utf8Length]
              omega
          · next frames'' passed hstep =>
              obtain ⟨hle, hsame⟩ := findings_frameStep hends h hstep
              rw [← hbefore] at hrun
              obtain ⟨element, hmem, hlt⟩ := ih hends.tail hle hrest hrun
              refine ⟨element, ?_, hoffset ▸ hlt⟩
              rw [Cursor.drop, hsame]
              exact hmem

/-! ### Behind a line -/

theorem Frame.stands {source : List Char} (frame : Frame) (hin : c.IsIn source) :
    ElementsStand source c.offset (frame.read c).next.offset (frame.read c).elements ∧
      (frame.read c).next.IsIn source := by
  cases frame with
  | code inBraces openBraces =>
      have hread := (Task.code inBraces openBraces 0).reads c
      exact ⟨hread.finds hin, hread.isIn hin⟩
  | template =>
      have hread := (Task.template 0).reads c
      exact ⟨hread.finds hin, hread.isIn hin⟩
  | comment => exact ⟨.nil (c.offset_le_drop _), hin.drop _⟩

/-- Nothing is found before the place where reading goes on. -/
theorem offset_le_of_mem_findings {source : List Char} (frames : List Frame) (hin : c.IsIn source) :
    ∀ element ∈ (findings frames c).1, c.offset ≤ element.span.start := by
  induction frames generalizing c with
  | nil => exact nofun
  | cons frame outer ih =>
      obtain ⟨hstands, hnext⟩ := frame.stands hin
      intro element hmem
      rcases List.mem_append.1 hmem with hfirst | hlater
      · exact hstands.behind element hfirst
      · exact Nat.le_trans hstands.le (ih hnext element hlater)

/-- At the end of the text there is nothing to be found. -/
theorem findings_of_end (frames : List Frame) (h : c.rest = []) :
    findings frames c = ([], false) := by
  induction frames with
  | nil => rfl
  | cons frame outer ih =>
      rw [← ih]
      refine findings_of_left ?_ outer
      cases frame with
      | code inBraces openBraces =>
          have hread : Reads (.code inBraces openBraces 0) c _ := .codeEnd h
          exact hread.read_eq
      | template =>
          have hread : Reads (.template 0) c _ := .templateEnd h
          exact hread.read_eq
      | comment =>
          rw [Frame.read, h]
          rfl

end Lines

end ComponentTags
