import ComponentTags.Element.Reading
import ComponentTags.Proofs.Bytewise.Slices

/-!
The parts of tags and code in which no other part stands, read byte by byte: words and strings, closing
tags and the values of attributes. Each of them is read as it is by characters, and no check fails; of
an expression, which is cut off before its last byte, one does if its last character is not ASCII.
-/

namespace ComponentTags.Bytewise

/-- The index of the last item that is not of a class. -/
def lastOutside? (p : Char → Bool) (items : List Char) : Option Nat :=
  match (items.reverse.dropWhile p).length with
  | 0 => none
  | n + 1 => some n

/-- Whether the bytes before an offset leave an operand to follow. -/
def operandFollows (source : List Char) (pos : Nat) : Checked Bool := do
  let before ← part (signs source) 0 pos
  match lastOutside? Ascii.isBlank before with
  | none => pure true
  | some last =>
      let x ← item before last
      if Lexical.isWordChar x then
        let front ← part before 0 (last + 1)
        let start := (lastOutside? Lexical.isWordChar front).elim 0 (· + 1)
        let word ← part before start (last + 1)
        pure (Lexical.wordsBeforeExpression.any fun known => signs known.toList == word)
      else
        pure (x != ')' && x != ']')

def elementFollows (source : List Char) (pos : Nat) : Bool :=
  (peek source (pos + 1)).any fun x => Lexical.isNameStart x || x == '>'

/-- Whether the text behind the `<` at an offset reads like type parameters. -/
def typeParametersFollow (source : List Char) (pos : Nat) : Checked Bool :=
  let afterWord := skipWhile Lexical.isWordChar source (pos + 1)
  let next := skipWhile Ascii.isBlank source afterWord
  if afterWord = pos + 1 then
    pure false
  else if peek source next = some ',' then
    pure true
  else do
    let rest ← part (signs source) next (utf8Length source)
    pure ("extends".toList.isPrefixOf rest && (peek source (next + 7)).any Ascii.isBlank)

/-- Past a quoted string, from behind its opening quote on. -/
def skipString (source : Bytewise) (quote : Char) (pos : Nat) : Checked Nat :=
  match peek source pos with
  | none => pure pos
  | some x =>
      if x = '\\' then source |>.skipString quote (bump source (bump source pos))
      else if x = '\n' then pure pos
      else if x = quote then pure (bump source pos)
      else source |>.skipString quote (bump source pos)
partial_fixpoint

/-- A closing tag at its `<`. -/
def closingTag (source : List Char) (pos : Nat) : Checked (ClosingTag × Nat) := do
  let nameStart := skipWhile Ascii.isBlank source (bump source (bump source pos))
  let nameStop := skipWhile Lexical.isNameChar source nameStart
  let next ← skipPast ['>'] source nameStop
  pure ({ nameSpan := ⟨nameStart, nameStop⟩, span := ⟨pos, next⟩ }, next)

/-- The text of a value in quotes, from behind the opening one on, and where it is over. -/
def quotedValue (source : List Char) (quote : Char) (start : Nat) : Checked (List Char × Nat) := do
  let rest ← slice source start (utf8Length source)
  let stop := start + utf8Length (rest.takeWhile (· != quote))
  let text ← slice source start stop
  pure (text, bump source stop)

/-- The text of a value without quotes, and where it is over. -/
def unquotedValue (source : List Char) (start : Nat) : Checked (List Char × Nat) := do
  let stop := skipWhile Lexical.isUnquotedChar source start
  if start < stop ∧ peek source stop = some '>' then
    let last ← oneLess stop
    let x ← item (signs source) last
    let stop := if x = '/' then last else stop
    let text ← slice source start stop
    pure (text, stop)
  else
    let text ← slice source start stop
    pure (text, stop)

section Lexical

variable {source rest : List Char} {ch x quote : Char} {c : Cursor}

theorem peek_cons (hin : c.IsIn source) (hrest : c.rest = ch :: rest) :
    peek source c.offset = some (lead ch) := by
  rw [peek_offset hin, hrest]
  rfl

theorem peek_end (hin : c.IsIn source) (hrest : c.rest = []) : peek source c.offset = none := by
  rw [peek_offset hin, hrest]
  rfl

theorem lead_of_ascii (hch : Ascii.isAscii ch = true) : lead ch = ch :=
  (lead_eq_iff hch).2 rfl

theorem lead_mem_iff {chars : List Char} (hchars : chars.all Ascii.isAscii = true) :
    lead ch ∈ chars ↔ ch ∈ chars := by
  have hascii := List.all_eq_true.1 hchars
  constructor
  · intro hmem
    exact (lead_eq_iff (hascii _ hmem)).1 rfl ▸ hmem
  · intro hmem
    rwa [lead_of_ascii (hascii _ hmem)]

theorem peek_ascii (hin : c.IsIn source) (hrest : c.rest = ch :: rest)
    (hch : Ascii.isAscii ch = true) : peek source c.offset = some ch := by
  rw [peek_cons hin hrest, lead_of_ascii hch]

theorem lead_head?_eq_some_iff (hx : Ascii.isAscii x = true) :
    rest.head?.map lead = some x ↔ rest.head? = some x := by
  cases rest with
  | nil => simp
  | cons first rest => simp [lead_eq_iff hx]

theorem IsUniform.any_lead {p : Char → Bool} (hp : IsUniform p) (rest : List Char) :
    (rest.head?.map lead).any p = rest.head?.any p := by
  cases rest with
  | nil => rfl
  | cons first rest => exact hp.apply_lead first

theorem offset_advance (hrest : c.rest = ch :: rest) (hch : Ascii.isAscii ch = true) :
    c.advance.offset = c.offset + 1 := by
  rw [Cursor.advance_of_rest hrest, utf8Size_of_ascii hch]

theorem peek_next (hin : c.IsIn source) (hrest : c.rest = ch :: rest)
    (hch : Ascii.isAscii ch = true) : peek source (c.offset + 1) = rest.head?.map lead := by
  rw [← offset_advance hrest hch, peek_offset hin.advance, Cursor.advance_of_rest hrest]

theorem peek_next_eq_some_iff (hin : c.IsIn source) (hrest : c.rest = ch :: rest)
    (hch : Ascii.isAscii ch = true) (hx : Ascii.isAscii x = true) :
    peek source (c.offset + 1) = some x ↔ rest.head? = some x := by
  rw [peek_next hin hrest hch, lead_head?_eq_some_iff hx]

theorem peek_next_eq_some (hin : c.IsIn source) (hrest : c.rest = ch :: x :: rest)
    (hch : Ascii.isAscii ch = true) (hx : Ascii.isAscii x = true) :
    peek source (c.offset + 1) = some x :=
  (peek_next_eq_some_iff hin hrest hch hx).2 rfl

theorem peek_next_ne_some (hin : c.IsIn source) (hrest : c.rest = ch :: rest)
    (hch : Ascii.isAscii ch = true) (hx : Ascii.isAscii x = true)
    (hne : ∀ rest', rest ≠ x :: rest') : peek source (c.offset + 1) ≠ some x := by
  rw [ne_eq, peek_next_eq_some_iff hin hrest hch hx]
  intro hhead
  cases rest with
  | nil => cases hhead
  | cons first rest => exact hne rest (Option.some.inj hhead ▸ rfl)

theorem skipString_passes (source : List Char) (hquote : Ascii.isAscii quote = true) :
    PassesBeyond source (skipString source quote) := by
  intro offset x hx hbeyond
  rw [skipString, hx]
  dsimp only
  rw [if_neg (ne_of_beyond hbeyond rfl), if_neg (ne_of_beyond hbeyond rfl),
    if_neg (ne_of_beyond hbeyond hquote)]

theorem skipString_offset (hquote : Ascii.isAscii quote = true) (hin : c.IsIn source) :
    skipString source quote c.offset =
      pure (c.drop (Lexical.stringLength quote c.rest)).offset := by
  have hpasses := skipString_passes source hquote
  generalize htext : c.rest = text
  induction text using Lexical.stringLength.induct quote generalizing c with
  | case1 =>
      rw [skipString, peek_end hin htext]
      rfl
  | case2 =>
      have hnext : c.advance.rest = [] := by rw [Cursor.advance_of_rest htext]
      rw [skipString, peek_cons hin htext]
      dsimp only
      rw [if_pos (lead_of_ascii rfl), bump_of_ascii hin htext rfl, hpasses.bump hin.advance,
        advance_of_end hnext, skipString, peek_end hin.advance hnext]
      rfl
  | case3 other rest ih =>
      have hnext : (c.drop 2).rest = rest := by rw [Cursor.rest_drop, htext]; rfl
      rw [skipString, peek_cons hin htext]
      dsimp only
      rw [if_pos (lead_of_ascii rfl), bump_of_ascii hin htext rfl, hpasses.bump hin.advance,
        Lexical.stringLength]
      exact ih (hin.drop 2) hnext
  | case4 rest _ _ =>
      rw [skipString, peek_cons hin htext]
      dsimp only
      rw [if_neg (by decide), if_pos (lead_of_ascii rfl), Lexical.stringLength, if_pos rfl]
      · rfl
      · simp
      · simp
  | case5 rest hlast hescape hbreak =>
      have hplain : quote ≠ '\\' := by
        intro hquote
        cases rest with
        | nil => exact hlast hquote rfl
        | cons other rest => exact hescape other rest hquote rfl
      rw [skipString, peek_cons hin htext, lead_of_ascii hquote]
      dsimp only
      rw [if_neg hplain, if_neg hbreak, if_pos rfl, Lexical.stringLength.eq_4 _ _ _ hlast hescape,
        if_neg hbreak, if_pos rfl, bump_of_ascii hin htext hquote]
      rfl
  | case6 ch rest hlast hescape hbreak hclose ih =>
      have hplain : ch ≠ '\\' := by
        intro hquote
        cases rest with
        | nil => exact hlast hquote rfl
        | cons other rest => exact hescape other rest hquote rfl
      have hnext : c.advance.rest = rest := by rw [Cursor.advance_of_rest htext]
      rw [skipString, peek_cons hin htext]
      dsimp only
      rw [if_neg (mt (lead_eq_iff rfl).1 hplain), if_neg (mt (lead_eq_iff rfl).1 hbreak),
        if_neg (mt (lead_eq_iff hquote).1 hclose), hpasses.bump hin,
        Lexical.stringLength.eq_4 _ _ _ hlast hescape, if_neg hbreak, if_neg hclose]
      exact ih hin.advance hnext

/-! ### What stands before and behind a `<` -/

theorem lastOutside?_elim (p : Char → Bool) (items : List Char) :
    (lastOutside? p items).elim 0 (· + 1) = (items.reverse.dropWhile p).length := by
  rw [lastOutside?]
  split
  · next hnone => rw [hnone]; rfl
  · next n hsome => rw [hsome]; rfl

theorem lastOutside?_eq_some {p : Char → Bool} {items body : List Char}
    (h : items.reverse.dropWhile p = (body ++ [x]).reverse) :
    lastOutside? p items = some body.length := by
  rw [lastOutside?, h, List.length_reverse, List.length_append]
  rfl

theorem signs_beq_iff (first second : List Char) : signs first == signs second ↔ first = second := by
  rw [beq_iff_eq]
  exact ⟨signs_injective, congrArg signs⟩

theorem contains_word (words : List String) (word : List Char) :
    words.any (fun known => signs known.toList == signs word) =
      words.contains (String.ofList word) := by
  rw [Bool.eq_iff_iff, List.any_eq_true, List.contains_iff_mem]
  constructor
  · rintro ⟨known, hmem, heq⟩
    rwa [← (signs_beq_iff _ _).1 heq, String.ofList_toList]
  · intro hmem
    exact ⟨_, hmem, (signs_beq_iff _ _).2 String.toList_ofList⟩

theorem exists_last_sign (ch : Char) (kept : List Char) :
    ∃ body x, signs (ch :: kept).reverse = body ++ [x] ∧ Alike x ch := by
  rcases List.eq_nil_or_concat (signs [ch]) with hnone | ⟨body, x, hlast⟩
  · exact absurd hnone (signs_ne_nil ch)
  · rw [List.concat_eq_append] at hlast
    refine ⟨signs kept.reverse ++ body, x, ?_, ?_⟩
    · rw [List.reverse_cons, signs_append, hlast, List.append_assoc]
    · exact alike_of_mem_signs (hlast ▸ List.mem_append_right _ List.mem_cons_self)

theorem signs_takeWhile_dropWhile (p : Char → Bool) (before : List Char) :
    signs before.reverse =
      signs (before.dropWhile p).reverse ++ signs (before.takeWhile p).reverse := by
  rw [← signs_append, ← List.reverse_append, List.takeWhile_append_dropWhile]

theorem operandFollows_offset (hin : c.IsIn source) :
    operandFollows source c.offset = pure (Lexical.operandFollows c.before) := by
  obtain ⟨hsigns, hlength⟩ := signs_at hin
  have hkeeps := (isUniform_isBlank.reverse_signs c.before).2
  have hbefore := signs_takeWhile_dropWhile Ascii.isBlank c.before
  have hpart : part (signs c.before.reverse ++ signs c.rest) 0 c.offset =
      pure (signs c.before.reverse) :=
    part_append [] _ _ hlength.symm
  rw [operandFollows, hsigns, hpart, pure_bind, Lexical.operandFollows]
  cases hkept : c.before.dropWhile Ascii.isBlank with
  | nil =>
      rw [hkept] at hkeeps
      rw [lastOutside?, hkeeps]
      rfl
  | cons ch kept =>
      obtain ⟨body, x, hlast, halike⟩ := exists_last_sign ch kept
      rw [hkept] at hkeeps hbefore
      rw [lastOutside?_eq_some (hkeeps.trans (congrArg List.reverse hlast))]
      have hitem : item (signs c.before.reverse) body.length = pure x := by
        rw [hbefore, hlast, List.append_assoc]
        exact item_append
      have hlength : body.length + 1 = (signs (ch :: kept).reverse).length := by
        rw [hlast, List.length_append]
        rfl
      dsimp only
      rw [hitem, pure_bind, isUniform_isWordChar _ _ halike]
      split
      · have hfront : part (signs c.before.reverse) 0 (body.length + 1) =
            pure (signs (ch :: kept).reverse) := by
          rw [hbefore]
          exact part_append [] _ _ hlength
        have hword : part (signs c.before.reverse)
            (signs ((ch :: kept).dropWhile Lexical.isWordChar).reverse).length (body.length + 1) =
              pure (signs ((ch :: kept).takeWhile Lexical.isWordChar).reverse) := by
          have hsplit := signs_takeWhile_dropWhile Lexical.isWordChar (ch :: kept)
          rw [hsplit] at hlength hbefore
          rw [hbefore, List.append_assoc]
          exact part_append _ _ _ hlength
        rw [hfront, pure_bind, lastOutside?_elim, (isUniform_isWordChar.reverse_signs _).2,
          List.length_reverse, hword, pure_bind, contains_word]
      · have hsign : ∀ y, Ascii.isAscii y = true → (x != y) = (ch != y) :=
          fun y hy => (isUniform_eq hy).not _ _ halike
        rw [hsign ')' rfl, hsign ']' rfl]

theorem elementFollows_offset (hin : c.IsIn source) (hrest : c.rest = '<' :: rest) :
    elementFollows source c.offset = Lexical.elementFollows rest := by
  rw [elementFollows, peek_next hin hrest rfl,
    (isUniform_isNameStart.or (isUniform_eq rfl)).any_lead]
  cases rest <;> rfl

theorem isPrefixOf_signs {pattern : List Char} (hpattern : pattern.all Ascii.isAscii = true)
    (text : List Char) : pattern.isPrefixOf (signs text) = pattern.isPrefixOf text := by
  induction pattern generalizing text with
  | nil => simp
  | cons x pattern ih =>
      rw [List.all_cons, Bool.and_eq_true] at hpattern
      cases text with
      | nil => rfl
      | cons ch text =>
          obtain ⟨tail, htail⟩ := exists_signs ch
          rw [signs_cons]
          by_cases heq : ch = x
          · subst heq
            rw [signs_of_ascii hpattern.1]
            simp [List.isPrefixOf, ih hpattern.2]
          · have hlead : lead ch ≠ x := mt (lead_eq_iff hpattern.1).1 heq
            rw [htail, List.cons_append]
            simp [List.isPrefixOf, beq_false_of_ne hlead.symm, beq_false_of_ne (Ne.symm heq)]

theorem rest_skipWhile (c : Cursor) (p : Char → Bool) :
    (c.skipWhile p).rest = c.rest.dropWhile p :=
  Cursor.rest_past _ List.takeWhile_append_dropWhile.symm

theorem part_rest (hin : c.IsIn source) :
    part (signs source) c.offset (utf8Length source) = pure (signs c.rest) := by
  obtain ⟨hsigns, hlength⟩ := signs_at hin
  have hsize := length_signs source
  have hpart := part_append (signs c.before.reverse) (signs c.rest) [] (hsigns ▸ hsize.symm)
  rw [List.append_nil, ← hsigns, hlength] at hpart
  exact hpart

theorem typeParametersFollow_offset (hin : c.IsIn source) (hrest : c.rest = '<' :: rest) :
    typeParametersFollow source c.offset = pure (Lexical.typeParametersFollow rest) := by
  have hword : c.advance.rest = rest := by rw [Cursor.advance_of_rest hrest]
  -- the places where the word and the blanks behind it are over
  obtain ⟨afterWord, hafterWord⟩ : ∃ d, d = c.advance.skipWhile Lexical.isWordChar := ⟨_, rfl⟩
  obtain ⟨next, hnext⟩ : ∃ d, d = afterWord.skipWhile Ascii.isBlank := ⟨_, rfl⟩
  have hafterIn : afterWord.IsIn source := hafterWord ▸ hin.advance.skipWhile _
  have hnextIn : next.IsIn source := hnext ▸ hafterIn.skipWhile _
  have hnextRest : next.rest = (rest.dropWhile Lexical.isWordChar).dropWhile Ascii.isBlank := by
    rw [hnext, rest_skipWhile, hafterWord, rest_skipWhile, hword]
  have hempty : afterWord.offset = c.advance.offset ↔ rest.takeWhile Lexical.isWordChar = [] := by
    rw [hafterWord, Cursor.skipWhile, Cursor.offset_drop, hword,
      ← List.prefix_iff_eq_take.1 (List.takeWhile_prefix _), Nat.add_eq_left]
    exact ⟨utf8Length_eq_zero, fun h => h ▸ rfl⟩
  rw [typeParametersFollow, ← offset_advance hrest rfl,
    skipWhile_offset isUniform_isWordChar hin.advance, ← hafterWord,
    skipWhile_offset isUniform_isBlank hafterIn, ← hnext, peek_offset hnextIn, part_rest hnextIn,
    pure_bind, Lexical.typeParametersFollow, ← hnextRest, isPrefixOf_signs (by decide)]
  cases htake : rest.takeWhile Lexical.isWordChar with
  | nil => rw [if_pos (hempty.2 htake)]
  | cons ch word =>
      have hextends : ("extends".toList.isPrefixOf next.rest &&
          (peek source (next.offset + 7)).any Ascii.isBlank) =
            ("extends".toList.isPrefixOf next.rest &&
              (next.rest.drop 7).head?.any Ascii.isBlank) := by
        cases hprefix : "extends".toList.isPrefixOf next.rest with
        | false => rfl
        | true =>
            obtain ⟨more, hmore⟩ := List.isPrefixOf_iff_prefix.1 hprefix
            have hseven : (next.drop 7).offset = next.offset + 7 := by
              rw [Cursor.offset_drop, ← hmore]
              rfl
            rw [← hseven, peek_offset (hnextIn.drop 7), isUniform_isBlank.any_lead, Cursor.rest_drop]
      rw [if_neg (by rw [hempty, htake]; exact List.cons_ne_nil _ _), hextends]
      dsimp only
      by_cases hcomma : next.rest.head? = some ','
      · rw [if_pos ((lead_head?_eq_some_iff rfl).2 hcomma), hcomma]
        rfl
      · rw [if_neg (mt (lead_head?_eq_some_iff rfl).1 hcomma), beq_false_of_ne hcomma,
          Bool.false_or]

/-! ### Closing tags and values -/

/-- The place behind an `=` where a value begins. -/
theorem value_offset (hin : c.IsIn source)
    (hequals : (c.skipWhile Ascii.isBlank).rest.head? = some '=') :
    peek source (c.skipWhile Ascii.isBlank).offset = some '=' ∧
      skipWhile Ascii.isBlank source (bump source (c.skipWhile Ascii.isBlank).offset) =
        ((c.skipWhile Ascii.isBlank).advance.skipWhile Ascii.isBlank).offset := by
  obtain ⟨rest, hrest⟩ := List.head?_eq_some_iff.1 hequals
  have hthere := hin.skipWhile Ascii.isBlank
  refine ⟨peek_ascii hthere hrest rfl, ?_⟩
  rw [bump_of_ascii hthere hrest rfl, skipWhile_offset isUniform_isBlank hthere.advance]

theorem bump_twice {next : Char} (hin : c.IsIn source) (hrest : c.rest = ch :: next :: rest)
    (hch : Ascii.isAscii ch = true) (hnext : Ascii.isAscii next = true) :
    bump source (bump source c.offset) = (c.drop 2).offset := by
  have hsecond : c.advance.rest = next :: rest := by rw [Cursor.advance_of_rest hrest]
  rw [bump_of_ascii hin hrest hch, bump_of_ascii hin.advance hsecond hnext]
  rfl

theorem closingTag_offset (hin : c.IsIn source) (hrest : c.rest = '<' :: '/' :: rest) :
    closingTag source c.offset =
      pure ((ComponentTags.closingTag c).value.2, (ComponentTags.closingTag c).next.offset) := by
  have hname := (hin.drop 2).skipWhile Ascii.isBlank
  rw [closingTag, bump_twice hin hrest rfl rfl, skipWhile_offset isUniform_isBlank (hin.drop 2),
    skipWhile_offset isUniform_isNameChar hname, skipPast_offset _ (hname.skipWhile _), pure_bind]
  rfl

theorem slice_takeWhile (hin : c.IsIn source) (p : Char → Bool) :
    slice source c.offset (c.skipWhile p).offset = pure (c.rest.takeWhile p) := by
  rw [Cursor.skipWhile, slice_offset hin, ← List.prefix_iff_eq_take.1 (List.takeWhile_prefix p)]

theorem slice_closingName (hin : c.IsIn source) :
    ∃ name, slice source (ComponentTags.closingTag c).value.2.nameSpan.start
        (ComponentTags.closingTag c).value.2.nameSpan.stop = pure name ∧
      (ComponentTags.closingTag c).value.1 = String.ofList name :=
  ⟨_, slice_takeWhile ((hin.drop 2).skipWhile Ascii.isBlank) Lexical.isNameChar, rfl⟩

theorem offset_skipWhile (c : Cursor) (p : Char → Bool) :
    (c.skipWhile p).offset = c.offset + utf8Length (c.rest.takeWhile p) := by
  rw [Cursor.skipWhile, Cursor.offset_drop,
    ← List.prefix_iff_eq_take.1 (List.takeWhile_prefix p)]

theorem bump_skipWhile (hquote : Ascii.isAscii quote = true) (hin : c.IsIn source) :
    bump source (c.skipWhile (· != quote)).offset = (c.skipWhile (· != quote)).advance.offset := by
  have hstops := List.head?_dropWhile_not (· != quote) c.rest
  have hend := rest_skipWhile c (· != quote)
  cases hdrop : c.rest.dropWhile (· != quote) with
  | nil => exact bump_of_end (hin.skipWhile _) (hend.trans hdrop)
  | cons ch rest =>
      rw [hdrop] at hstops
      obtain rfl : ch = quote := by simpa using hstops
      exact bump_of_ascii (hin.skipWhile _) (hend.trans hdrop) hquote

theorem quotedValue_offset (hquote : Ascii.isAscii quote = true) (hin : c.IsIn source) :
    quotedValue source quote c.offset =
      pure (c.rest.takeWhile (· != quote), (ComponentTags.quotedValue quote c).next.offset) := by
  rw [quotedValue, slice_rest hin, pure_bind, ← offset_skipWhile]
  dsimp only
  rw [slice_takeWhile hin, pure_bind, bump_skipWhile hquote hin]
  rfl

theorem exists_item_last (hin : c.IsIn source) {body : List Char}
    (hrest : c.rest = (body ++ [ch]) ++ rest) :
    ∃ x, item (signs source) (c.offset + utf8Length (body ++ [ch]) - 1) = pure x ∧
      Alike x ch := by
  obtain ⟨hsigns, hlength⟩ := signs_at hin
  obtain ⟨front, x, hlast, halike⟩ := exists_last_sign ch body.reverse
  rw [List.reverse_cons, List.reverse_reverse] at hlast
  have hindex : c.offset + utf8Length (body ++ [ch]) - 1 =
      (signs c.before.reverse ++ front).length := by
    rw [← length_signs, hlast, List.length_append, List.length_append, hlength]
    rfl
  refine ⟨x, ?_, halike⟩
  rw [hindex, hsigns, hrest, signs_append, hlast, List.append_assoc front, ← List.append_assoc]
  exact item_append

theorem unquotedValue_offset (hin : c.IsIn source) :
    ∃ text, unquotedValue source c.offset =
        pure (text, (ComponentTags.unquotedValue c).next.offset) ∧
      (ComponentTags.unquotedValue c).value = some (.literal (String.ofList text)) := by
  refine ⟨_, ?_, rfl⟩
  have hmore := List.takeWhile_append_dropWhile (p := Lexical.isUnquotedChar) (l := c.rest)
  have hends := @lead_head?_eq_some_iff (c.rest.dropWhile Lexical.isUnquotedChar) '>' rfl
  have hslice := slice_takeWhile hin Lexical.isUnquotedChar
  have hstop := offset_skipWhile c Lexical.isUnquotedChar
  rw [unquotedValue, skipWhile_offset isUniform_isUnquotedChar hin]
  dsimp only
  rw [peek_offset (hin.skipWhile _), rest_skipWhile, ComponentTags.unquotedValue, Reading.next_found,
    Cursor.offset_drop]
  rcases List.eq_nil_or_concat (c.rest.takeWhile Lexical.isUnquotedChar) with
    hnone | ⟨body, ch, hlast⟩
  · rw [hnone] at hslice hstop ⊢
    have hsame : (c.skipWhile Lexical.isUnquotedChar).offset = c.offset := hstop
    rw [if_neg (by rw [hsame]; omega), hslice, hsame]
    simp [utf8Length]
  · rw [List.concat_eq_append] at hlast
    rw [hlast] at hmore hslice hstop ⊢
    have hpos := ch.utf8Size_pos
    have hlt : c.offset < (c.skipWhile Lexical.isUnquotedChar).offset := by
      rw [hstop, utf8Length_append, utf8Length]
      omega
    obtain ⟨x, hitem, halike⟩ := exists_item_last hin hmore.symm
    rw [← hstop] at hitem
    have hwhole : c.rest.take (body ++ [ch]).length = body ++ [ch] := by rw [← hmore, List.take_left]
    by_cases hclose : (c.rest.dropWhile Lexical.isUnquotedChar).head? = some '>'
    · rw [if_pos ⟨hlt, hends.2 hclose⟩, oneLess_of_pos (by omega), pure_bind, hitem, pure_bind,
        hclose, List.getLast?_concat]
      by_cases hslash : ch = '/'
      · have hbody : c.rest.take body.length = body := by
          rw [← hmore, List.append_assoc, List.take_left]
        have hlast : (c.skipWhile Lexical.isUnquotedChar).offset - 1 =
            (c.drop body.length).offset := by
          rw [hstop, Cursor.offset_drop, hbody, utf8Length_append, hslash]
          rfl
        rw [if_pos ((alike_iff_of_ascii rfl).1 (hslash ▸ halike)), if_pos (by simp [hslash]), hlast,
          slice_offset hin, List.dropLast_concat, hbody, pure_bind, Cursor.offset_drop, hbody]
      · rw [if_neg fun heq => hslash ((alike_iff_of_ascii rfl).1 (halike.symm.trans (.inl heq))),
          if_neg (by simp [hslash]), hslice, pure_bind, hwhole, hstop]
    · rw [if_neg (fun h => hclose (hends.1 h.2)), hslice, pure_bind, if_neg (by simp [hclose]),
        hwhole, hstop]

/-- The expression of an attribute is cut off before its last byte, whatever character that is of. -/
theorem slice_expression {d : Cursor} (hin : c.IsIn source) (hin' : d.IsIn source)
    (hle : d.remaining ≤ c.remaining) :
    slice source c.offset (max (d.offset - 1) c.offset) =
      if (c.textTo d).getLast?.any fun ch => !Ascii.isAscii ch then throw .insideCharacter
      else pure (c.textTo d).dropLast := by
  obtain ⟨hrest, hbefore⟩ := hin.textTo_append hin' hle
  have hoffset := hin'.offset
  rw [hbefore, utf8Length_append, utf8Length_reverse, ← hin.offset, Nat.add_comm] at hoffset
  rcases List.eq_nil_or_concat (c.textTo d) with hnone | ⟨body, ch, hlast⟩
  · rw [hnone] at hoffset ⊢
    rw [hoffset, utf8Length, Nat.add_zero, Nat.max_eq_right (Nat.sub_le _ _)]
    exact slice_offset hin 0
  · rw [List.concat_eq_append] at hlast
    have hpos := ch.utf8Size_pos
    rw [hlast, utf8Length_append, utf8Length, utf8Length] at hoffset
    rw [hlast, List.getLast?_concat, List.dropLast_concat, hoffset, Nat.max_eq_left (by omega)]
    rw [hlast] at hrest
    have hsource : source = (c.before.reverse ++ body) ++ ch :: d.rest := by
      rw [hin.text, hrest]
      simp
    have hfront : utf8Length (c.before.reverse ++ body) = c.offset + utf8Length body := by
      rw [utf8Length_append, utf8Length_reverse, hin.offset]
    by_cases hascii : Ascii.isAscii ch = true
    · have hbody : (c.drop body.length).offset = c.offset + utf8Length body := by
        rw [Cursor.offset_drop, hrest, List.append_assoc, List.take_left]
      have hstop : c.offset + (utf8Length body + (ch.utf8Size + 0)) - 1 =
          (c.drop body.length).offset := by
        rw [hbody, utf8Size_of_ascii hascii]
        omega
      rw [hstop, slice_offset hin, hrest, List.append_assoc, List.take_left]
      simp [hascii]
    · have hsize := utf8Size_of_beyond (Bool.eq_false_iff.2 hascii)
      have hstop : c.offset + (utf8Length body + (ch.utf8Size + 0)) - 1 =
          utf8Length (c.before.reverse ++ body) + (ch.utf8Size - 1) := by
        omega
      have hinside : ¬IsBoundary ((c.before.reverse ++ body) ++ ch :: d.rest)
          (utf8Length (c.before.reverse ++ body) + (ch.utf8Size - 1)) :=
        not_isBoundary_inside _ d.rest (by omega) (by omega)
      have hrange : c.offset ≤ utf8Length (c.before.reverse ++ body) + (ch.utf8Size - 1) ∧
          utf8Length (c.before.reverse ++ body) + (ch.utf8Size - 1) ≤ utf8Length source := by
        rw [hsource, utf8Length_append _ (ch :: d.rest), utf8Length]
        omega
      rw [hstop, slice, if_pos hrange, if_neg (fun h => hinside (hsource ▸ h.2))]
      simp [hascii]

end Lexical

end ComponentTags.Bytewise
