import ComponentTags.Text.Entity

/-!
Texts inside attributes and between tags. A text that is written with entities stands between double
quotes, or between tags without a tag or an interpolation in it, and who decodes the entities gets the
text.
-/

namespace ComponentTags.Entity

/-- The text that is written with the entities of attributes. -/
def decode : List Char → List Char
  | [] => []
  | '&' :: 'a' :: 'm' :: 'p' :: ';' :: rest => '&' :: decode rest
  | '&' :: 'q' :: 'u' :: 'o' :: 't' :: ';' :: rest => '"' :: decode rest
  | '&' :: 'l' :: 't' :: ';' :: rest => '<' :: decode rest
  | '&' :: 'g' :: 't' :: ';' :: rest => '>' :: decode rest
  | ch :: rest => ch :: decode rest

theorem decode_attributeChar (ch : Char) (rest : List Char) :
    decode (attributeChar ch ++ rest) = ch :: decode rest := by
  unfold attributeChar
  split
  · rfl
  · rfl
  · rfl
  · rfl
  · next hamp _ _ _ =>
      rw [List.singleton_append, decode]
      all_goals exact fun _ heq => absurd heq hamp

theorem attributeChar_ne_quote (ch : Char) : '"' ∉ attributeChar ch := by
  unfold attributeChar
  split
  · decide
  · decide
  · decide
  · decide
  · next hquote _ _ => exact fun hmem => hquote (List.mem_singleton.1 hmem).symm

/-- **Entities are decoded to the text that they were written for.** -/
theorem decode_attributeText (text : String) : decode (attributeText text).toList = text.toList := by
  rw [attributeText, String.toList_ofList]
  induction text.toList with
  | nil => rfl
  | cons ch chars ih => rw [List.flatMap_cons, decode_attributeChar, ih]

theorem ne_quote_of_mem_attributeText {text : String} :
    ∀ ch ∈ (attributeText text).toList, (ch != '"') = true := by
  intro ch hch
  rw [attributeText, String.toList_ofList, List.mem_flatMap] at hch
  obtain ⟨source, -, hmem⟩ := hch
  rw [bne_iff_ne]
  rintro rfl
  exact attributeChar_ne_quote source hmem

/-! ### Texts between tags -/

/-- The characters that a reader of markup knows by name, those that markup itself needs among them. -/
structure NamedChars where
  char? : List Char → Option Char
  ampersand : char? "amp".toList = some '&'
  less : char? "lt".toList = some '<'
  greater : char? "gt".toList = some '>'

/-- Only the characters that markup itself needs are known. -/
def NamedChars.predefined : NamedChars where
  char? name :=
    if name = "amp".toList then some '&'
    else if name = "lt".toList then some '<'
    else if name = "gt".toList then some '>'
    else if name = "quot".toList then some '"'
    else if name = "apos".toList then some '\''
    else none
  ampersand := by decide
  less := by decide
  greater := by decide

def digitValue (ch : Char) : Nat :=
  if ch.isDigit then ch.toNat - '0'.toNat else ch.toLower.toNat - 'a'.toNat + 10

/-- The character whose number is written with digits of a base. -/
def numbered? (base : Nat) (isDigit : Char → Bool) (digits : List Char) : Option Char :=
  let number := digits.foldl (fun number digit => base * number + digitValue digit) 0
  if digits ≠ [] ∧ digits.all isDigit ∧ number.isValidChar then some (Char.ofNat number) else none

/-- The character that stands between a `&` and a `;` by its name or by its number. -/
def referred? (names : NamedChars) : List Char → Option Char
  | '#' :: 'x' :: digits | '#' :: 'X' :: digits => numbered? 16 Char.isHexDigit digits
  | '#' :: digits => numbered? 10 Char.isDigit digits
  | name => names.char? name

/-- The text that is written between tags; a `&` before what is no character stands for itself. -/
def decodeContent (names : NamedChars) : List Char → List Char
  | [] => []
  | '&' :: rest =>
      let body := rest.takeWhile (· != ';')
      match referred? names body, rest.drop body.length with
      | some ch, ';' :: _ => ch :: decodeContent names (rest.drop (body.length + 1))
      | _, _ => '&' :: decodeContent names rest
  | ch :: rest => ch :: decodeContent names rest
termination_by text => text.length

variable {names : NamedChars}

theorem decodeContent_cons {ch : Char} (h : ch ≠ '&') (rest : List Char) :
    decodeContent names (ch :: rest) = ch :: decodeContent names rest := by
  rw [decodeContent]
  exact fun heq => absurd heq h

theorem decodeContent_referred {body : List Char} {ch : Char} (hbody : ∀ ch ∈ body, (ch != ';') = true)
    (h : referred? names body = some ch) (rest : List Char) :
    decodeContent names ('&' :: (body ++ ';' :: rest)) = ch :: decodeContent names rest := by
  have htaken : (body ++ ';' :: rest).takeWhile (· != ';') = body := by
    rw [List.takeWhile_append_of_pos hbody, List.takeWhile_cons_of_neg (by decide), List.append_nil]
  rw [decodeContent, htaken, h, List.drop_left, List.drop_length_add_append]
  rfl

theorem decodeContent_contentChar (ch : Char) (rest : List Char) :
    decodeContent names (contentChar ch ++ rest) = ch :: decodeContent names rest := by
  have hnamed : ∀ (body : List Char) {ch : Char}, body.all (· != ';') = true →
      referred? names body = some ch →
        decodeContent names ('&' :: (body ++ ';' :: rest)) = ch :: decodeContent names rest :=
    fun _ _ hbody h => decodeContent_referred (List.all_eq_true.1 hbody) h rest
  have hopen : numbered? 10 Char.isDigit "123".toList = some '{' := by decide
  have hclose : numbered? 10 Char.isDigit "125".toList = some '}' := by decide
  unfold contentChar
  split
  · exact hnamed "amp".toList rfl names.ampersand
  · exact hnamed "lt".toList rfl names.less
  · exact hnamed "gt".toList rfl names.greater
  · exact hnamed "#123".toList rfl hopen
  · exact hnamed "#125".toList rfl hclose
  · next hamp _ _ _ _ => exact decodeContent_cons hamp rest

/-- **Named and numbered characters are decoded to the text that they were written for.** -/
theorem decodeContent_contentText (text : String) :
    decodeContent names (contentText text).toList = text.toList := by
  rw [contentText, String.toList_ofList]
  induction text.toList with
  | nil => rw [List.flatMap_nil, decodeContent]
  | cons ch chars ih => rw [List.flatMap_cons, decodeContent_contentChar, ih]

/-- No character of a text between tags begins a tag, or begins or ends an interpolation. -/
theorem notMem_contentText {ch : Char} (h : ch ∈ ['<', '{', '}']) (text : String) :
    ch ∉ (contentText text).toList := by
  have hchar : ∀ source, ∀ ch ∈ contentChar source, ch ∉ ['<', '{', '}'] := by
    intro source
    unfold contentChar
    split
    · simp
    · simp
    · simp
    · simp
    · simp
    · next hamp hless hgreater hopen hclose =>
        intro ch hch
        obtain rfl := List.mem_singleton.1 hch
        simp only [List.mem_cons, List.not_mem_nil, or_false, not_or]
        exact ⟨hless, hopen, hclose⟩
  rw [contentText, String.toList_ofList, List.mem_flatMap]
  rintro ⟨source, -, hmem⟩
  exact hchar source ch hmem h

end ComponentTags.Entity
