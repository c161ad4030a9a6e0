import ComponentTags.Proofs.Source.Cursors

/-!
Passages of a text. Where a cursor is after a passage that stands before it, and how long the passage is
that ends with the first occurrence of a pattern.
-/

namespace ComponentTags

/-! ### Runs of characters -/

section Runs

variable {p : Char → Bool} {text rest : List Char}

/-- The text does not go on with a character of the class. -/
def StopsAt (p : Char → Bool) (rest : List Char) : Prop :=
  ∀ ch ∈ rest.head?, p ch = false

theorem stopsAt_cons {ch : Char} (h : p ch = false) : StopsAt p (ch :: rest) := by
  intro other hother
  obtain rfl := Option.some.inj hother
  exact h

theorem takeWhile_append_of_stopsAt (htext : ∀ ch ∈ text, p ch = true) (hrest : StopsAt p rest) :
    (text ++ rest).takeWhile p = text := by
  rw [List.takeWhile_append_of_pos htext]
  cases rest with
  | nil => simp
  | cons ch rest => simp [hrest ch rfl]

theorem dropWhile_append_of_stopsAt (htext : ∀ ch ∈ text, p ch = true) (hrest : StopsAt p rest) :
    (text ++ rest).dropWhile p = rest := by
  rw [List.dropWhile_append_of_pos htext]
  cases rest with
  | nil => simp
  | cons ch rest => simp [hrest ch rfl]

end Runs

/-! ### Patterns -/

section Patterns

variable {pattern text rest : List Char} {ch : Char}

/-- No end of the pattern is a beginning of it. -/
def Unbordered (pattern : List Char) : Prop :=
  ∀ n < pattern.length, 0 < n → ¬pattern.drop n <+: pattern

instance (pattern : List Char) : Decidable (Unbordered pattern) :=
  inferInstanceAs (Decidable (∀ n < pattern.length, 0 < n → ¬pattern.drop n <+: pattern))

theorem unbordered_cons {first : Char} {others : List Char} (h : first ∉ others) :
    Unbordered (first :: others) := by
  rintro n hlength hpos ⟨after, heq⟩
  obtain ⟨m, rfl⟩ := Nat.exists_eq_succ_of_ne_zero (Nat.ne_of_gt hpos)
  have hshort : m < others.length := by simpa using hlength
  rw [List.drop_succ_cons, List.drop_eq_getElem_cons hshort] at heq
  exact h ((List.cons.inj heq).1 ▸ List.getElem_mem hshort)

/-- A pattern that stands behind a text without it does not begin in the text. -/
theorem not_isPrefix_append (hpattern : Unbordered pattern) (htext : ¬pattern <:+: text)
    (hne : text ≠ []) (rest : List Char) : ¬pattern <+: text ++ (pattern ++ rest) := by
  rintro ⟨after, heq⟩
  rcases List.append_eq_append_iff.1 heq with ⟨back, htext', -⟩ | ⟨back, hpattern', hback⟩
  · exact htext ⟨[], back, by rw [List.nil_append, htext']⟩
  · have hlength : pattern.length = text.length + back.length := by
      rw [hpattern', List.length_append]
    by_cases hshort : back = []
    · exact htext ⟨[], [], by simp [hpattern', hshort]⟩
    · have hpos : 0 < text.length := List.length_pos_iff.2 hne
      have hbackPos : 0 < back.length := List.length_pos_iff.2 hshort
      have hdrop : pattern.drop text.length = back := by rw [hpattern', List.drop_left]
      refine hpattern text.length (by omega) hpos ?_
      rw [hdrop]
      exact List.prefix_of_prefix_length_le ⟨after, hback.symm⟩ (List.prefix_append pattern rest)
        (by omega)

theorem not_isInfix_tail (h : ¬pattern <:+: ch :: text) : ¬pattern <:+: text :=
  fun hinside => h (hinside.trans (List.suffix_cons ch text).isInfix)

theorem isPrefixOf_eq_false (h : ¬pattern <+: text) : pattern.isPrefixOf text = false :=
  Bool.eq_false_iff.2 fun hprefix => h (List.isPrefixOf_iff_prefix.1 hprefix)

theorem exists_cons_of_append (hne : pattern ≠ []) (rest : List Char) :
    ∃ ch text, pattern ++ rest = ch :: text ∧ pattern.isPrefixOf (ch :: text) = true := by
  obtain ⟨ch, text, rfl⟩ := List.exists_cons_of_ne_nil hne
  exact ⟨ch, text ++ rest, rfl, List.isPrefixOf_iff_prefix.2 (List.prefix_append (ch :: text) rest)⟩

/-- A text that a pattern ends is as long as the two of them. -/
theorem lengthPast_append (hne : pattern ≠ []) (hpattern : Unbordered pattern)
    (htext : ¬pattern <:+: text) (rest : List Char) :
    lengthPast pattern (text ++ (pattern ++ rest)) = text.length + pattern.length := by
  induction text with
  | nil =>
      obtain ⟨ch, others, heq, hprefix⟩ := exists_cons_of_append hne rest
      rw [List.nil_append, heq, lengthPast, if_pos hprefix]
      simp
  | cons ch text ih =>
      have hno := not_isPrefix_append hpattern htext (List.cons_ne_nil ch text) rest
      rw [List.cons_append] at hno ⊢
      rw [lengthPast, isPrefixOf_eq_false hno, if_neg Bool.false_ne_true,
        ih (not_isInfix_tail htext), List.length_cons]
      omega

theorem lengthPast_append_of_notMem {first : Char} (htext : first ∉ text) (others rest : List Char) :
    lengthPast (first :: others) (text ++ (first :: others ++ rest)) =
      text.length + (first :: others).length := by
  induction text with
  | nil =>
      obtain ⟨ch, after, heq, hprefix⟩ := exists_cons_of_append (List.cons_ne_nil first others) rest
      rw [List.nil_append, heq, lengthPast, if_pos hprefix]
      simp
  | cons ch text ih =>
      obtain ⟨hne, hmem⟩ := not_or.1 (mt List.mem_cons.2 htext)
      have hno : ¬first :: others <+: ch :: (text ++ (first :: others ++ rest)) := by
        rintro ⟨after, heq⟩
        exact hne (List.cons.inj heq).1
      rw [List.cons_append, lengthPast, isPrefixOf_eq_false hno, if_neg Bool.false_ne_true, ih hmem]
      simp only [List.length_cons]
      omega

/-- Without the first character of the pattern the whole text is passed. -/
theorem lengthPast_of_notMem {first : Char} (htext : first ∉ text) (others : List Char) :
    lengthPast (first :: others) text = text.length := by
  induction text with
  | nil => rfl
  | cons ch text ih =>
      obtain ⟨hne, hmem⟩ := not_or.1 (mt List.mem_cons.2 htext)
      have hno : ¬first :: others <+: ch :: text := by
        rintro ⟨after, heq⟩
        exact hne (List.cons.inj heq).1
      rw [lengthPast, isPrefixOf_eq_false hno, if_neg Bool.false_ne_true, ih hmem, List.length_cons]

end Patterns

/-! ### Passages -/

namespace Cursor

variable {c : Cursor} {text more rest : List Char} {p : Char → Bool} {ch : Char}

/-- The cursor after a passage that stands before it. -/
def past (c : Cursor) (text : List Char) : Cursor :=
  c.drop text.length

theorem drop_add (c : Cursor) (m n : Nat) : c.drop (m + n) = (c.drop m).drop n := by
  induction m generalizing c with
  | zero => rw [Nat.zero_add, drop]
  | succ m ih => rw [Nat.succ_add, drop, drop, ih]

theorem past_append (c : Cursor) (text more : List Char) :
    c.past (text ++ more) = (c.past text).past more := by
  rw [past, List.length_append, drop_add, past, past]

theorem past_cons (c : Cursor) (ch : Char) (text : List Char) :
    c.past (ch :: text) = c.advance.past text :=
  rfl

theorem rest_drop (c : Cursor) (n : Nat) : (c.drop n).rest = c.rest.drop n := by
  induction n generalizing c with
  | zero => rfl
  | succ n ih =>
      rw [drop, ih]
      unfold advance
      split
      · next hrest => simp [hrest]
      · next hrest => simp [hrest]

theorem rest_past (text : List Char) (h : c.rest = text ++ rest) : (c.past text).rest = rest := by
  rw [past, rest_drop, h, List.drop_left]

theorem offset_past (text : List Char) (h : c.rest = text ++ rest) :
    (c.past text).offset = c.offset + utf8Length text := by
  rw [past, offset_drop, h, List.take_left]

theorem before_past (text : List Char) (h : c.rest = text ++ rest) :
    (c.past text).before = text.reverse ++ c.before := by
  rw [past, before_drop, h, List.take_left]

theorem skipWhile_eq_past (text : List Char) (h : c.rest = text ++ rest)
    (htext : ∀ ch ∈ text, p ch = true) (hrest : StopsAt p rest) : c.skipWhile p = c.past text := by
  rw [skipWhile, h, takeWhile_append_of_stopsAt htext hrest, past]

theorem skipWhile_eq_self (h : StopsAt p c.rest) : c.skipWhile p = c :=
  skipWhile_eq_past [] rfl nofun h

/-- Two cursors of a text: the later one comes behind what stands between them. -/
theorem IsIn.textTo_append {d : Cursor} {source : List Char} (hin : c.IsIn source)
    (hin' : d.IsIn source) (hle : d.remaining ≤ c.remaining) :
    c.rest = c.textTo d ++ d.rest ∧ d.before = (c.textTo d).reverse ++ c.before := by
  have hsuffix : c.rest <:+ source := ⟨_, hin.text.symm⟩
  have hsuffix' : d.rest <:+ source := ⟨_, hin'.text.symm⟩
  obtain ⟨between, hbetween⟩ := List.suffix_of_suffix_length_le hsuffix' hsuffix hle
  have htext : c.textTo d = between := by
    rw [textTo, remaining, remaining, ← hbetween, List.length_append, Nat.add_sub_cancel,
      List.take_left]
  have hfront : d.before.reverse ++ d.rest = (c.before.reverse ++ between) ++ d.rest := by
    rw [← hin'.text, hin.text, ← hbetween, List.append_assoc]
  rw [htext]
  refine ⟨hbetween.symm, ?_⟩
  rw [← List.reverse_reverse d.before, List.append_cancel_right hfront, List.reverse_append,
    List.reverse_reverse]

theorem textTo_past (text : List Char) (h : c.rest = text ++ rest) : c.textTo (c.past text) = text := by
  rw [textTo, past, remaining_drop, remaining, h]
  simp

end Cursor

end ComponentTags
