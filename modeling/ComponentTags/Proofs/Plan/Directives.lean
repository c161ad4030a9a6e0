import ComponentTags.Plan.Scan
import ComponentTags.Proofs.Element.CodeTexts

/-!
Reading directives. A quoted string is a directive if only blanks stand before it and nothing but
spaces up to the end of its statement; what the strings at the front of a text come to is told from
the first one on.
-/

namespace ComponentTags

/-- A space or a tab, which may stand between a directive and the end of its statement. -/
def isTab (ch : Char) : Bool :=
  ch = ' ' || ch = '\t'

/-- The length of what belongs to a directive behind its string, if its statement ends there. -/
def directiveEnd? (text : List Char) : Option Nat :=
  let spaces := (text.takeWhile isTab).length
  match text.drop spaces with
  | ';' :: _ => some (spaces + 1)
  | [] | '\n' :: _ | '\r' :: _ => some spaces
  | _ => none

section Directives

variable {text lead rest spaces : List Char} {ch : Char} {quote : Quote}

theorem directiveLength?_of_ne (hblank : Ascii.isBlank ch = false) (hquote : ch ≠ '"' ∧ ch ≠ '\'')
    (rest : List Char) : directiveLength? (ch :: rest) = none := by
  simp [directiveLength?, hblank, hquote]

/-- Blanks before a directive belong to it. -/
theorem directiveLength?_append (hlead : ∀ ch ∈ lead, Ascii.isBlank ch = true) (text : List Char) :
    directiveLength? (lead ++ text) = (directiveLength? text).map (lead.length + ·) := by
  have hblanks : ((lead ++ text).takeWhile Ascii.isBlank).length =
      lead.length + (text.takeWhile Ascii.isBlank).length := by
    rw [List.takeWhile_append_of_pos hlead, List.length_append]
  have hdrop : (lead ++ text).drop (lead.length + (text.takeWhile Ascii.isBlank).length) =
      text.drop (text.takeWhile Ascii.isBlank).length := by
    rw [← List.drop_drop, List.drop_left]
  unfold directiveLength?
  dsimp only
  rw [hblanks, hdrop]
  split
  · rfl
  · split
    · split
      · rfl
      · split
        · split <;> simp <;> omega
        · rfl
    · rfl

/-- A string in quotes, which need not be escaped as strings of code are. -/
theorem directiveLength?_quoted {inner : List Char} (hquote : ch = '"' ∨ ch = '\'')
    (hinner : ∀ x ∈ inner, (x != ch && x != '\n') = true) (rest : List Char) :
    directiveLength? (ch :: (inner ++ ch :: rest)) =
      (directiveEnd? rest).map (inner.length + 2 + ·) := by
  have hblank : Ascii.isBlank ch = false := by rcases hquote with rfl | rfl <;> decide
  have hstops : StopsAt (fun x => x != ch && x != '\n') (ch :: rest) := stopsAt_cons (by simp)
  unfold directiveLength? directiveEnd?
  rw [List.takeWhile_cons_of_neg (by simp [hblank])]
  simp only [List.length_nil, List.drop_zero]
  rw [if_pos (by simpa using hquote), takeWhile_append_of_stopsAt hinner hstops]
  simp only [List.drop_left, if_true]
  change (match rest.drop (rest.takeWhile isTab).length with
    | ';' :: _ => some (0 + inner.length + (rest.takeWhile isTab).length + 3)
    | [] | '\n' :: _ | '\r' :: _ => some (0 + inner.length + (rest.takeWhile isTab).length + 2)
    | _ => none) = _
  split <;> simp <;> omega

/-- A quote that is not closed in its line does not begin a directive. -/
theorem directiveLength?_unclosed {inner : List Char} (hquote : ch = '"' ∨ ch = '\'')
    (hinner : ∀ x ∈ inner, (x != ch && x != '\n') = true)
    (hstops : StopsAt (fun x => x != ch && x != '\n') rest) (hrest : rest.head? ≠ some ch) :
    directiveLength? (ch :: (inner ++ rest)) = none := by
  have hblank : Ascii.isBlank ch = false := by rcases hquote with rfl | rfl <;> decide
  unfold directiveLength?
  rw [List.takeWhile_cons_of_neg (by simp [hblank])]
  simp only [List.length_nil, List.drop_zero]
  rw [if_pos (by simpa using hquote), takeWhile_append_of_stopsAt hinner hstops]
  simp only [List.drop_left]
  cases rest with
  | nil => rfl
  | cons x rest => exact if_neg fun heq => hrest (congrArg some heq)

theorem directiveLength?_around (value : Run (isStringChar quote)) (rest : List Char) :
    directiveLength? (quote.around value.chars ++ rest) =
      (directiveEnd? rest).map (value.chars.length + 2 + ·) := by
  have hvalue : ∀ ch ∈ value.chars, (ch != quote.char && ch != '\n') = true := by
    intro ch hch
    have hplain := value.all ch hch
    simp only [isStringChar, Bool.and_eq_true] at hplain
    simp [hplain.1.1, hplain.2]
  have hquote : quote.char = '"' ∨ quote.char = '\'' := by cases quote <;> decide
  have hbody : value.chars ++ [quote.char] ++ rest = value.chars ++ quote.char :: rest := by simp
  rw [Quote.around, List.cons_append, hbody]
  exact directiveLength?_quoted hquote hvalue rest

theorem directivesLength_of_none (h : directiveLength? text = none) : directivesLength text = 0 := by
  rw [directivesLength]
  split
  · rfl
  · next n hsome => rw [h] at hsome; cases hsome

theorem directivesLength_of_some {n : Nat} (h : directiveLength? text = some n) :
    directivesLength text = n + directivesLength (text.drop n) := by
  rw [directivesLength]
  split
  · next hnone => rw [h] at hnone; cases hnone
  · next m hsome =>
      rw [h] at hsome
      obtain rfl := Option.some.inj hsome
      rfl

theorem directiveEnd?_semicolon (hspaces : ∀ ch ∈ spaces, isTab ch = true) (rest : List Char) :
    directiveEnd? (spaces ++ ';' :: rest) = some (spaces.length + 1) := by
  have hstops : StopsAt isTab (';' :: rest) := stopsAt_cons (by decide)
  simp only [directiveEnd?, takeWhile_append_of_stopsAt hspaces hstops, List.drop_left]

theorem directiveEnd?_break (hspaces : ∀ ch ∈ spaces, isTab ch = true) (hch : ch = '\n' ∨ ch = '\r')
    (rest : List Char) : directiveEnd? (spaces ++ ch :: rest) = some spaces.length := by
  have hstops : StopsAt isTab (ch :: rest) := by
    rcases hch with rfl | rfl <;> exact stopsAt_cons (by decide)
  simp only [directiveEnd?, takeWhile_append_of_stopsAt hspaces hstops, List.drop_left]
  rcases hch with rfl | rfl <;> rfl

/-- Anything else behind the spaces makes the string no directive. -/
theorem directiveEnd?_eq_none (hspaces : ∀ ch ∈ spaces, isTab ch = true) (hch : isTab ch = false)
    (hends : ch ∉ [';', '\n', '\r']) (rest : List Char) :
    directiveEnd? (spaces ++ ch :: rest) = none := by
  have hstops : StopsAt isTab (ch :: rest) := stopsAt_cons hch
  simp only [List.mem_cons, List.not_mem_nil, or_false, not_or] at hends
  simp only [directiveEnd?, takeWhile_append_of_stopsAt hspaces hstops, List.drop_left]
  split <;> simp_all

end Directives

end ComponentTags
