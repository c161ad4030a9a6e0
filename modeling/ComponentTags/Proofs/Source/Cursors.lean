import ComponentTags.Element.Lexical

/-!
Cursors of one text. A cursor that is moved stays in its text, and its offset tells how many bytes of
the text lie before it.
-/

namespace ComponentTags

theorem utf8Length_append (front rest : List Char) :
    utf8Length (front ++ rest) = utf8Length front + utf8Length rest := by
  induction front with
  | nil => simp [utf8Length]
  | cons ch front ih =>
      rw [List.cons_append, utf8Length, utf8Length, ih]
      omega

theorem utf8Length_reverse (text : List Char) : utf8Length text.reverse = utf8Length text := by
  induction text with
  | nil => rfl
  | cons ch text ih =>
      rw [List.reverse_cons, utf8Length_append, ih]
      simp only [utf8Length]
      omega

theorem utf8Length_eq_zero {text : List Char} (h : utf8Length text = 0) : text = [] := by
  cases text with
  | nil => rfl
  | cons ch text =>
      have hsize := ch.utf8Size_pos
      rw [utf8Length] at h
      omega

theorem utf8ByteSize_eq (source : String) : source.utf8ByteSize = utf8Length source.toList := by
  have hchars : ∀ text : List Char, (String.ofList text).utf8ByteSize = utf8Length text := by
    intro text
    induction text with
    | nil => rfl
    | cons ch text ih =>
        rw [String.ofList_cons, String.utf8ByteSize_append, String.utf8ByteSize_singleton, ih,
          utf8Length]
  rw [← hchars, String.ofList_toList]

/-- Two fronts of a text: the longer one goes on where the shorter one ends. -/
theorem exists_between {front rest front' rest' : List Char}
    (h : front ++ rest = front' ++ rest') (hle : utf8Length front ≤ utf8Length front') :
    ∃ between, front' = front ++ between ∧ rest = between ++ rest' := by
  rcases List.append_eq_append_iff.1 h with ⟨between, hfront, hrest⟩ | ⟨between, hfront, hrest⟩
  · exact ⟨between, hfront, hrest⟩
  · have hnone : between = [] := by
      apply utf8Length_eq_zero
      rw [hfront, utf8Length_append] at hle
      omega
    subst hnone
    exact ⟨[], by simpa using hfront.symm, by simpa using hrest.symm⟩

namespace Cursor

/-- A cursor that splits that text. -/
structure IsIn (c : Cursor) (source : List Char) : Prop where
  text : source = c.before.reverse ++ c.rest
  offset : c.offset = utf8Length c.before

section Moves

variable {c d : Cursor} {source : List Char}

theorem isIn_start (source : List Char) : (Cursor.start source).IsIn source :=
  ⟨rfl, rfl⟩

theorem IsIn.advance (h : c.IsIn source) : c.advance.IsIn source := by
  unfold Cursor.advance
  split
  · exact h
  · next ch rest hrest =>
      refine ⟨?_, ?_⟩
      · rw [h.text, hrest]
        simp
      · rw [h.offset, utf8Length]
        exact Nat.add_comm _ _

theorem IsIn.drop (h : c.IsIn source) (n : Nat) : (c.drop n).IsIn source := by
  induction n generalizing c with
  | zero => exact h
  | succ n ih => exact ih h.advance

theorem IsIn.skipWhile (h : c.IsIn source) (p : Char → Bool) : (c.skipWhile p).IsIn source :=
  h.drop _

theorem offset_le_advance (c : Cursor) : c.offset ≤ c.advance.offset := by
  unfold Cursor.advance
  split
  · exact Nat.le_refl _
  · exact Nat.le_add_right _ _

theorem offset_le_drop (c : Cursor) (n : Nat) : c.offset ≤ (c.drop n).offset := by
  induction n generalizing c with
  | zero => exact Nat.le_refl _
  | succ n ih => exact Nat.le_trans c.offset_le_advance (ih c.advance)

theorem offset_le_skipWhile (c : Cursor) (p : Char → Bool) : c.offset ≤ (c.skipWhile p).offset :=
  c.offset_le_drop _

theorem before_drop (c : Cursor) (n : Nat) :
    (c.drop n).before = (c.rest.take n).reverse ++ c.before := by
  induction n generalizing c with
  | zero => rfl
  | succ n ih =>
      rw [Cursor.drop, ih]
      unfold Cursor.advance
      split <;> simp_all

theorem offset_drop (c : Cursor) (n : Nat) :
    (c.drop n).offset = c.offset + utf8Length (c.rest.take n) := by
  induction n generalizing c with
  | zero => rfl
  | succ n ih =>
      rw [Cursor.drop, ih]
      unfold Cursor.advance
      split
      · simp_all [utf8Length]
      · next ch rest hrest =>
          rw [hrest, List.take_succ_cons, utf8Length]
          dsimp only
          omega

theorem advance_of_rest {ch : Char} {rest : List Char} (h : c.rest = ch :: rest) :
    c.advance = ⟨ch :: c.before, rest, c.offset + ch.utf8Size⟩ := by
  unfold Cursor.advance
  rw [h]

theorem IsIn.size_eq (h : c.IsIn source) : utf8Length source = c.offset + utf8Length c.rest := by
  rw [h.text, utf8Length_append, utf8Length_reverse, h.offset]

theorem IsIn.offset_le (h : c.IsIn source) : c.offset ≤ utf8Length source := by
  rw [h.size_eq]
  exact Nat.le_add_right _ _

end Moves

end Cursor

end ComponentTags
