import ComponentTags.Proofs.Element.TagTexts

/-!
Code without elements. Plain characters, strings, comments, template literals and type parameters are
passed over, whatever stands in them.
-/

namespace ComponentTags

/-- A character of code that opens and closes nothing. -/
def isPlainChar (ch : Char) : Bool :=
  !(['\x60', '{', '}', '<', '/', '\'', '"'].contains ch)

/-- A character that stands for itself in a quoted string. -/
def isStringChar (quote : Quote) (ch : Char) : Bool :=
  ch != quote.char && ch != '\\' && ch != '\n'

/-- A character that stands for itself in a template literal. -/
def isTemplateChar (ch : Char) : Bool :=
  ch != '\x60' && ch != '\\'

structure Word extends Run Lexical.isWordChar where
  nonempty : chars ≠ []

section Codes

variable {c : Cursor} {text rest : List Char} {inBraces : Bool} {openBraces depth : Nat}
  {code : Reading Unit} {quote : Quote}

theorem Reads.pastPlain (htext : ∀ ch ∈ text, isPlainChar ch = true) (h : c.rest = text ++ rest)
    (hcode : Reads (.code inBraces openBraces depth) (c.past text) code) :
    Reads (.code inBraces openBraces depth) c code := by
  induction text generalizing c with
  | nil => exact hcode
  | cons ch text ih =>
      have hch : ch ∉ ['\x60', '{', '}', '<', '/', '\'', '"'] := by
        simpa [isPlainChar] using htext ch List.mem_cons_self
      have hone : Lexical.plainLength (ch :: (text ++ rest)) = 1 := by
        unfold Lexical.plainLength
        split <;> simp_all
      have hrest : c.rest = ch :: (text ++ rest) := h
      refine .codePlain hrest
        (fun hmem => hch (List.mem_append_left ['/', '\'', '"'] hmem)) ?_
      · rw [hone]
        exact ih (fun other hother => htext other (List.mem_cons_of_mem _ hother))
          (Cursor.rest_past [ch] h) hcode

/-- Comments and strings are passed over in one step. -/
theorem Reads.pastOpaque {ch : Char} (h : c.rest = ch :: (text ++ rest))
    (hlength : Lexical.plainLength (ch :: (text ++ rest)) = text.length + 1)
    (hch : ch ∉ ['\x60', '{', '}', '<'])
    (hcode : Reads (.code inBraces openBraces depth) (c.past (ch :: text)) code) :
    Reads (.code inBraces openBraces depth) c code := by
  refine .codePlain h hch ?_
  rw [hlength]
  exact hcode

theorem stringLength_append (htext : ∀ ch ∈ text, isStringChar quote ch = true) (rest : List Char) :
    Lexical.stringLength quote.char (text ++ quote.char :: rest) = text.length + 1 := by
  induction text with
  | nil => cases quote <;> simp [Quote.char, Lexical.stringLength]
  | cons ch text ih =>
      have hch : ch ≠ quote.char ∧ ch ≠ '\\' ∧ ch ≠ '\n' := by
        simpa [isStringChar, and_assoc] using htext ch List.mem_cons_self
      have hthen := ih fun other hother => htext other (List.mem_cons_of_mem _ hother)
      rw [List.cons_append, Lexical.stringLength, if_neg hch.2.2, if_neg hch.1, hthen]
      · rfl
      · exact fun heq => absurd heq hch.2.1
      · exact fun _ _ heq => absurd heq hch.2.1

theorem Reads.pastString {value : Run (isStringChar quote)}
    (h : c.rest = quote.around value.chars ++ rest)
    (hcode : Reads (.code inBraces openBraces depth) (c.past (quote.around value.chars)) code) :
    Reads (.code inBraces openBraces depth) c code := by
  have hstring := stringLength_append value.all rest
  refine .pastOpaque h ?_ (by cases quote <;> decide) hcode
  rw [List.append_assoc, List.singleton_append, List.length_append, List.length_singleton]
  cases quote <;> rw [Quote.char, Lexical.plainLength, ← hstring] <;> rfl

theorem Reads.pastLine (htext : '\n' ∉ text) (h : c.rest = '/' :: ('/' :: (text ++ ['\n']) ++ rest))
    (hcode : Reads (.code inBraces openBraces depth) (c.past ('/' :: '/' :: (text ++ ['\n'])))
      code) : Reads (.code inBraces openBraces depth) c code := by
  refine .pastOpaque h ?_ (by decide) hcode
  have hlength := lengthPast_append_of_notMem htext [] rest
  rw [List.cons_append, List.append_assoc, Lexical.plainLength]
  simp only [List.length_cons, List.length_append, List.length_nil] at hlength ⊢
  omega

/-- A comment up to the end of the text. -/
theorem Reads.pastLastLine (htext : '\n' ∉ text) (h : c.rest = '/' :: '/' :: text)
    (hcode : Reads (.code inBraces openBraces depth) (c.past ('/' :: '/' :: text)) code) :
    Reads (.code inBraces openBraces depth) c code := by
  have hall : c.rest = '/' :: ('/' :: text ++ []) := by simpa using h
  refine .pastOpaque hall ?_ (by decide) hcode
  have hlength := lengthPast_of_notMem htext []
  rw [List.append_nil, Lexical.plainLength, hlength]
  rfl

theorem Reads.pastBlock (htext : ¬['*', '/'] <:+: text)
    (h : c.rest = '/' :: ('*' :: (text ++ ['*', '/']) ++ rest))
    (hcode : Reads (.code inBraces openBraces depth) (c.past ('/' :: '*' :: (text ++ ['*', '/'])))
      code) : Reads (.code inBraces openBraces depth) c code := by
  refine .pastOpaque h ?_ (by decide) hcode
  have hlength := lengthPast_append (by decide) (by decide) htext rest
  rw [List.cons_append, List.append_assoc, Lexical.plainLength, hlength]
  simp

/-- A template literal without holes. -/
theorem Reads.templateText (htext : ∀ ch ∈ text, isTemplateChar ch = true)
    (hhole : ¬['$', '{'] <:+: text) (h : c.rest = text ++ '\x60' :: rest) :
    Reads (.template depth) c (.found () (c.past (text ++ ['\x60']))) := by
  induction text generalizing c with
  | nil => exact .templateClose h
  | cons ch text ih =>
      have hch : ch ∉ ['\x60', '\\'] := by
        simpa [isTemplateChar] using htext ch List.mem_cons_self
      have hrest : c.rest = ch :: (text ++ '\x60' :: rest) := h
      refine .templatePlain hrest hch ?_ ?_
      · rintro rfl rest' heq
        cases text with
        | nil => exact absurd (List.cons.inj heq).1 (by decide)
        | cons other text =>
            obtain rfl := (List.cons.inj heq).1
            exact hhole ⟨[], text, rfl⟩
      · exact ih (fun other hother => htext other (List.mem_cons_of_mem _ hother))
          (not_isInfix_tail hhole) (Cursor.rest_past [ch] h)

theorem Reads.pastTemplate (htext : ∀ ch ∈ text, isTemplateChar ch = true)
    (hhole : ¬['$', '{'] <:+: text) (h : c.rest = '\x60' :: (text ++ '\x60' :: rest))
    (hcode : Reads (.code inBraces openBraces depth) (c.past ('\x60' :: (text ++ ['\x60'])))
      code) : Reads (.code inBraces openBraces depth) c code := by
  have hread := Reads.codeTemplate h (.templateText htext hhole (Cursor.rest_past ['\x60'] h)) hcode
  rwa [Reading.found_andThen] at hread

/-! ### Elements and type parameters -/

theorem isPlainChar_of_isWordChar {ch : Char} (h : Lexical.isWordChar ch = true) :
    isPlainChar ch = true := by
  unfold isPlainChar
  rw [Bool.not_eq_true', Bool.eq_false_iff]
  intro hmem
  simp only [List.contains_cons, List.contains_nil, Bool.or_false, Bool.or_eq_true,
    beq_iff_eq] at hmem
  rcases hmem with rfl | rfl | rfl | rfl | rfl | rfl | rfl <;> exact absurd h (by decide)

/-- Whether a word in angle brackets goes on as a type parameter does. -/
def parameterFollows (next : List Char) : Bool :=
  next.head? == some ',' ||
    ("extends".toList.isPrefixOf next && (next.drop 7).head?.any Ascii.isBlank)

theorem typeParametersFollow_word (word : Word) (h : StopsAt Lexical.isWordChar rest) :
    Lexical.typeParametersFollow (word.chars ++ rest) =
      parameterFollows (rest.dropWhile Ascii.isBlank) := by
  obtain ⟨ch, chars, hword⟩ := List.exists_cons_of_ne_nil word.nonempty
  rw [Lexical.typeParametersFollow, takeWhile_append_of_stopsAt word.all h,
    dropWhile_append_of_stopsAt word.all h, hword]
  rfl

theorem joint_of_isNameChar {ch : Char} (hname : Lexical.isNameChar ch = true)
    (hword : Lexical.isWordChar ch = false) : ch = '-' ∨ ch = '.' ∨ ch = ':' := by
  simp only [Lexical.isNameChar, Lexical.isNameStart, Lexical.isWordChar, Char.isAlphanum,
    Bool.or_eq_true, Bool.or_eq_false_iff, beq_iff_eq] at hname hword
  grind

/-- A tag name with what follows it is no type parameter unless that makes it one. -/
theorem typeParametersFollow_tagName (name : TagName) (hrest : StopsAt Lexical.isWordChar rest)
    (hnext : parameterFollows (rest.dropWhile Ascii.isBlank) = false) :
    Lexical.typeParametersFollow (name.chars ++ rest) = false := by
  have hsplit := List.takeWhile_append_dropWhile (p := Lexical.isWordChar) (l := name.chars)
  have hword : ∀ ch ∈ name.chars.takeWhile Lexical.isWordChar, Lexical.isWordChar ch = true :=
    fun ch hch => List.all_eq_true.1 List.all_takeWhile ch hch
  cases hother : name.chars.dropWhile Lexical.isWordChar with
  | nil =>
      rw [hother, List.append_nil] at hsplit
      rw [hsplit] at hword
      exact (typeParametersFollow_word ⟨⟨name.chars, hword⟩, List.cons_ne_nil _ _⟩
        hrest).trans hnext
  | cons ch others =>
      have hjoint : ch = '-' ∨ ch = '.' ∨ ch = ':' := by
        have hmem : ch ∈ name.chars := by
          rw [← hsplit, hother]
          exact List.mem_append_right _ List.mem_cons_self
        exact joint_of_isNameChar (name.isNameChar ch hmem)
          (by simpa [hother] using List.head?_dropWhile_not Lexical.isWordChar name.chars)
      have hstops : StopsAt Lexical.isWordChar (ch :: (others ++ rest)) := by
        rcases hjoint with rfl | rfl | rfl <;> exact stopsAt_cons (by decide)
      rw [← hsplit, hother, List.append_assoc, List.cons_append]
      generalize hfront : name.chars.takeWhile Lexical.isWordChar = front at hword
      cases front with
      | nil => rcases hjoint with rfl | rfl | rfl <;> rfl
      | cons first front =>
          refine (typeParametersFollow_word ⟨⟨first :: front, hword⟩, List.cons_ne_nil _ _⟩
            hstops).trans ?_
          rcases hjoint with rfl | rfl | rfl <;> rfl

end Codes

end ComponentTags
