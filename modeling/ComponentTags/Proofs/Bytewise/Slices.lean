import ComponentTags.Proofs.Json.Texts
import ComponentTags.Proofs.Source.Boundaries

/-!
A text by its bytes. An index has to lie in the list, a slice has to begin and end between characters;
whatever else is asked for is a fault. A byte beyond ASCII is in the classes that all characters beyond
ASCII are in, so the bytes of a text are passed over as its characters are, and the offsets of a cursor
are never those of a fault.
-/

namespace ComponentTags

/-- A text that is read by the offsets of its bytes. -/
abbrev Bytewise := List Char

namespace Bytewise

/-- What stops a computation: an index out of range, a slice that cuts a character, or a difference below zero. -/
inductive Fault where
  | outOfRange
  | insideCharacter
  | belowZero
deriving DecidableEq, Repr

/-- A computation gives a result, or a fault stops it, or it does not end. -/
abbrev Checked := ExceptT Fault Option

/-! ### Checked operations -/

section Checks

variable {α : Type}

def item (items : List α) (index : Nat) : Checked α :=
  match items[index]? with
  | some item => pure item
  | none => throw .outOfRange

def update (items : List α) (index : Nat) (change : α → α) : Checked (List α) :=
  if index < items.length then pure (items.modify index change) else throw .outOfRange

/-- The items from `start` up to, but not including, `stop`. -/
def part (items : List α) (start stop : Nat) : Checked (List α) :=
  if start ≤ stop ∧ stop ≤ items.length then pure ((items.take stop).drop start)
  else throw .outOfRange

def oneLess (n : Nat) : Checked Nat :=
  if 0 < n then pure (n - 1) else throw .belowZero

/-- The characters of a text between two offsets, both of which have to be boundaries. -/
def slice (source : List Char) (start stop : Nat) : Checked (List Char) :=
  if start ≤ stop ∧ stop ≤ utf8Length source then
    if IsBoundary source start ∧ IsBoundary source stop then pure (sliceBytes source start stop)
    else throw .insideCharacter
  else throw .outOfRange

end Checks

/-! ### Bytes -/

/-- The bytes of a text, each as the character of its number. -/
def signs (text : List Char) : List Char :=
  (Utf8.encode text).map Json.sign

def peek (source : List Char) (offset : Nat) : Option Char :=
  (signs source)[offset]?

def bump (source : List Char) (offset : Nat) : Nat :=
  min (offset + 1) (utf8Length source)

def skipWhile (p : Char → Bool) (source : List Char) (offset : Nat) : Nat :=
  offset + (((signs source).drop offset).takeWhile p).length

/-- Past the first occurrence of a pattern in the rest of the text, or to the end. -/
def skipPast (pattern source : List Char) (offset : Nat) : Checked Nat := do
  let rest ← slice source offset (utf8Length source)
  pure (offset + utf8Length (rest.take (lengthPast pattern rest)))

/-- The sign of the first byte of a character. -/
def lead (ch : Char) : Char :=
  Json.sign ((String.utf8EncodeChar ch).headD 0)

/-- Two characters that are the same, or both beyond ASCII. -/
def Alike (first second : Char) : Prop :=
  first = second ∨ Ascii.isAscii first = false ∧ Ascii.isAscii second = false

/-- A class of characters that has all characters beyond ASCII or none of them. -/
def IsUniform (p : Char → Bool) : Prop :=
  ∀ first second, Alike first second → p first = p second

section Items

variable {α : Type} {front back items : List α} {x : α} {change : α → α} {stop n : Nat}

theorem item_append : item (front ++ x :: back) front.length = pure x := by
  rw [item, List.getElem?_append_right (Nat.le_refl _), Nat.sub_self]
  rfl

theorem update_append :
    update (front ++ x :: back) front.length change = pure (front ++ change x :: back) := by
  have hmodified : (front ++ x :: back).modify front.length change = front ++ change x :: back := by
    induction front with
    | nil => rfl
    | cons first front ih => exact congrArg (first :: ·) ih
  rw [update, if_pos (by simp), hmodified]

theorem part_append (front middle back : List α) (hstop : stop = (front ++ middle).length) :
    part (front ++ (middle ++ back)) front.length stop = pure middle := by
  subst hstop
  rw [part, if_pos (by simp), ← List.append_assoc, List.take_left, List.drop_left]

theorem oneLess_of_pos (h : 0 < n) : oneLess n = pure (n - 1) :=
  if_pos h

end Items

section Signs

variable {source text front rest : List Char} {ch x : Char} {c : Cursor} {p : Char → Bool}

/-! ### Characters and their bytes -/

theorem Alike.symm {first second : Char} (h : Alike first second) : Alike second first :=
  h.imp Eq.symm And.symm

theorem Alike.trans {first second third : Char} (h : Alike first second) (h' : Alike second third) :
    Alike first third := by
  rcases h with rfl | ⟨hfirst, hsecond⟩
  · exact h'
  · rcases h' with rfl | ⟨-, hthird⟩
    · exact .inr ⟨hfirst, hsecond⟩
    · exact .inr ⟨hfirst, hthird⟩

/-- A character is alike to one of ASCII only if it is that one. -/
theorem alike_iff_of_ascii (hx : Ascii.isAscii x = true) : Alike ch x ↔ ch = x := by
  simp [Alike, hx]

@[simp]
theorem signs_append (first second : List Char) :
    signs (first ++ second) = signs first ++ signs second := by
  rw [signs, Utf8.encode_append, List.map_append]
  rfl

@[simp]
theorem length_signs (text : List Char) : (signs text).length = utf8Length text := by
  rw [signs, List.length_map, Utf8.length_encode]

theorem signs_cons (ch : Char) (text : List Char) : signs (ch :: text) = signs [ch] ++ signs text :=
  signs_append [ch] text

theorem signs_of_ascii (h : Ascii.isAscii ch = true) : signs [ch] = [ch] := by
  obtain ⟨hbytes, hsign⟩ := Utf8.utf8EncodeChar_of_lt (of_decide_eq_true h)
  rw [signs, Utf8.encode_cons, hbytes]
  exact congrArg (· :: []) hsign

/-- Each byte of a character is alike to it. -/
theorem alike_of_mem_signs (h : x ∈ signs [ch]) : Alike x ch := by
  by_cases hascii : Ascii.isAscii ch = true
  · rw [signs_of_ascii hascii] at h
    exact .inl (List.mem_singleton.1 h)
  · obtain ⟨byte, hmem, rfl⟩ := List.mem_map.1 h
    rw [Utf8.encode_cons, Utf8.encode, List.flatMap_nil, List.append_nil] at hmem
    have hbyte : 0x80 ≤ byte.toNat := by
      rw [Ascii.isAscii, decide_eq_true_iff] at hascii
      have hor := Utf8.toNat_of_mem_utf8EncodeChar hmem
      omega
    refine .inr ⟨?_, Bool.eq_false_iff.2 hascii⟩
    rw [Ascii.isAscii, decide_eq_false_iff_not, Json.toNat_sign]
    omega

theorem exists_signs (ch : Char) : ∃ tail, signs [ch] = lead ch :: tail := by
  have hlength : (String.utf8EncodeChar ch).length = ch.utf8Size := String.length_utf8EncodeChar ch
  have hpos := ch.utf8Size_pos
  cases hbytes : String.utf8EncodeChar ch with
  | nil => rw [hbytes, List.length_nil] at hlength; omega
  | cons byte bytes =>
      refine ⟨bytes.map Json.sign, ?_⟩
      rw [signs, Utf8.encode_cons, hbytes, lead, hbytes, Utf8.encode, List.flatMap_nil,
        List.append_nil]
      rfl

theorem alike_lead (ch : Char) : Alike (lead ch) ch := by
  obtain ⟨tail, htail⟩ := exists_signs ch
  exact alike_of_mem_signs (htail ▸ List.mem_cons_self)

theorem lead_eq_iff (hx : Ascii.isAscii x = true) : lead ch = x ↔ ch = x := by
  rw [← alike_iff_of_ascii hx, ← alike_iff_of_ascii hx]
  exact ⟨(alike_lead ch).symm.trans, (alike_lead ch).trans⟩

theorem IsUniform.apply_lead (hp : IsUniform p) (ch : Char) : p (lead ch) = p ch :=
  hp _ _ (alike_lead ch)

theorem signs_injective {first second : List Char} (h : signs first = signs second) :
    first = second := by
  have hsign : Function.Injective Json.sign := by
    intro byte byte' heq
    exact UInt8.toNat_inj.1 (by rw [← Json.toNat_sign, heq, Json.toNat_sign])
  have hbytes := List.map_inj_right (fun _ _ => @hsign _ _) |>.1 h
  have hdecoded := congrArg Utf8.decode? hbytes
  rw [Utf8.decode?_encode, Utf8.decode?_encode] at hdecoded
  exact Option.some.inj hdecoded

/-! ### Classes -/

theorem isUniform_of_ascii {b : Bool} (h : ∀ ch, Ascii.isAscii ch = false → p ch = b) :
    IsUniform p := by
  rintro first second (rfl | ⟨hfirst, hsecond⟩)
  · rfl
  · rw [h first hfirst, h second hsecond]

theorem ne_of_beyond (hch : Ascii.isAscii ch = false) (hx : Ascii.isAscii x = true) : ch ≠ x := by
  rintro rfl
  exact Bool.false_ne_true (hch.symm.trans hx)

theorem notMem_of_beyond {chars : List Char} (hch : Ascii.isAscii ch = false)
    (hchars : chars.all Ascii.isAscii = true) : ch ∉ chars :=
  fun hmem => ne_of_beyond hch (List.all_eq_true.1 hchars ch hmem) rfl

theorem isUniform_eq (hx : Ascii.isAscii x = true) : IsUniform (· == x) :=
  isUniform_of_ascii (b := false) fun _ hch => beq_eq_false_iff_ne.2 (ne_of_beyond hch hx)

theorem IsUniform.or {q : Char → Bool} (hp : IsUniform p) (hq : IsUniform q) :
    IsUniform fun ch => p ch || q ch :=
  fun first second h => by simp only [hp first second h, hq first second h]

theorem IsUniform.and {q : Char → Bool} (hp : IsUniform p) (hq : IsUniform q) :
    IsUniform fun ch => p ch && q ch :=
  fun first second h => by simp only [hp first second h, hq first second h]

theorem IsUniform.not (hp : IsUniform p) : IsUniform fun ch => !p ch :=
  fun first second h => by simp only [hp first second h]

theorem isUniform_isBlank : IsUniform Ascii.isBlank :=
  ((((isUniform_eq rfl).or (isUniform_eq rfl)).or (isUniform_eq rfl)).or (isUniform_eq rfl)).or
    (isUniform_eq rfl)

theorem isUniform_isNameStart : IsUniform Lexical.isNameStart :=
  isUniform_of_ascii (b := true) fun ch hch => by simp [Lexical.isNameStart, hch]

theorem isUniform_isNameChar : IsUniform Lexical.isNameChar :=
  isUniform_of_ascii (b := true) fun ch hch => by
    simp [Lexical.isNameChar, Lexical.isNameStart, hch]

theorem isUniform_isWordChar : IsUniform Lexical.isWordChar :=
  isUniform_of_ascii (b := true) fun ch hch => by simp [Lexical.isWordChar, hch]

theorem isUniform_isAttributeNameChar : IsUniform Lexical.isAttributeNameChar :=
  isUniform_isBlank.not.and (isUniform_of_ascii (b := true) fun ch hch => by
    rw [List.contains_eq_mem, Bool.not_eq_true', decide_eq_false_iff_not]
    exact notMem_of_beyond hch (by decide))

theorem isUniform_isUnquotedChar : IsUniform Lexical.isUnquotedChar :=
  ((isUniform_isBlank.not.and (isUniform_eq rfl).not).and (isUniform_eq rfl).not).and
    (isUniform_eq rfl).not

/-- What stands for characters is passed over as they are. -/
theorem IsUniform.flatMap (hp : IsUniform p) {g : Char → List Char} (hne : ∀ ch, g ch ≠ [])
    (hg : ∀ ch, ∀ x ∈ g ch, Alike x ch) (text : List Char) :
    (text.flatMap g).takeWhile p = (text.takeWhile p).flatMap g ∧
      (text.flatMap g).dropWhile p = (text.dropWhile p).flatMap g := by
  induction text with
  | nil => exact ⟨rfl, rfl⟩
  | cons ch text ih =>
      have hall : ∀ x ∈ g ch, p x = p ch := fun x hx => hp _ _ (hg ch x hx)
      rw [List.flatMap_cons, List.takeWhile_cons, List.dropWhile_cons]
      cases hch : p ch with
      | true =>
          have hpos : ∀ x ∈ g ch, p x = true := fun x hx => (hall x hx).trans hch
          rw [List.takeWhile_append_of_pos hpos, List.dropWhile_append_of_pos hpos, ih.1, ih.2]
          exact ⟨rfl, rfl⟩
      | false =>
          obtain ⟨first, others, heq⟩ := List.exists_cons_of_ne_nil (hne ch)
          have hneg : ¬p first = true := by
            rw [hall first (heq ▸ List.mem_cons_self), hch]
            exact Bool.false_ne_true
          rw [heq, List.cons_append, List.takeWhile_cons_of_neg hneg,
            List.dropWhile_cons_of_neg hneg, if_neg Bool.false_ne_true, if_neg Bool.false_ne_true,
            List.flatMap_cons, heq]
          exact ⟨rfl, rfl⟩

theorem signs_eq_flatMap (text : List Char) : signs text = text.flatMap fun ch => signs [ch] := by
  induction text with
  | nil => rfl
  | cons ch text ih => rw [signs_cons, ih, List.flatMap_cons]

theorem signs_ne_nil (ch : Char) : signs [ch] ≠ [] := by
  obtain ⟨tail, htail⟩ := exists_signs ch
  rw [htail]
  exact List.cons_ne_nil _ _

theorem IsUniform.takeWhile_signs (hp : IsUniform p) (text : List Char) :
    (signs text).takeWhile p = signs (text.takeWhile p) := by
  rw [signs_eq_flatMap, signs_eq_flatMap]
  exact (hp.flatMap signs_ne_nil (fun _ _ => alike_of_mem_signs) text).1

/-- The bytes before a cursor, last one first. -/
theorem reverse_signs (before : List Char) :
    (signs before.reverse).reverse = before.flatMap fun ch => (signs [ch]).reverse := by
  induction before with
  | nil => rfl
  | cons ch before ih =>
      rw [List.reverse_cons, signs_append, List.reverse_append, ih, List.flatMap_cons]

theorem IsUniform.reverse_signs (hp : IsUniform p) (before : List Char) :
    (signs before.reverse).reverse.takeWhile p = (signs (before.takeWhile p).reverse).reverse ∧
      (signs before.reverse).reverse.dropWhile p = (signs (before.dropWhile p).reverse).reverse := by
  rw [Bytewise.reverse_signs, Bytewise.reverse_signs, Bytewise.reverse_signs]
  refine hp.flatMap (fun ch => ?_) (fun ch x hx => ?_) before
  · simpa using signs_ne_nil ch
  · exact alike_of_mem_signs (List.mem_reverse.1 hx)

/-! ### Cursors -/

theorem signs_at (hin : c.IsIn source) :
    signs source = signs c.before.reverse ++ signs c.rest ∧
      (signs c.before.reverse).length = c.offset := by
  rw [← signs_append, ← hin.text, length_signs, utf8Length_reverse, hin.offset]
  exact ⟨rfl, rfl⟩

theorem drop_signs (hin : c.IsIn source) : (signs source).drop c.offset = signs c.rest := by
  obtain ⟨hsigns, hlength⟩ := signs_at hin
  rw [hsigns, ← hlength, List.drop_left]

theorem peek_offset (hin : c.IsIn source) : peek source c.offset = c.rest.head?.map lead := by
  rw [peek, ← List.head?_drop, drop_signs hin]
  cases c.rest with
  | nil => rfl
  | cons ch rest =>
      obtain ⟨tail, htail⟩ := exists_signs ch
      rw [signs_cons, htail]
      rfl

theorem offset_lt_size (hin : c.IsIn source) (hrest : c.rest = ch :: rest) :
    c.offset < utf8Length source := by
  have hpos := ch.utf8Size_pos
  rw [hin.size_eq, hrest, utf8Length]
  omega

theorem utf8Size_of_ascii (hch : Ascii.isAscii ch = true) : ch.utf8Size = 1 := by
  have hlength := length_signs [ch]
  rw [signs_of_ascii hch] at hlength
  simpa [utf8Length] using hlength.symm

theorem utf8Size_toLower (ch : Char) : ch.toLower.utf8Size = ch.utf8Size := by
  by_cases hupper : ch.val ≥ 'A'.val ∧ ch.val ≤ 'Z'.val
  · have hlow : 65 ≤ ch.val.toNat := UInt32.le_iff_toNat_le.1 hupper.1
    have hhigh : ch.val.toNat ≤ 90 := UInt32.le_iff_toNat_le.1 hupper.2
    have hlowered : ch.toLower.val.toNat = ch.val.toNat + 32 := by
      unfold Char.toLower
      rw [dif_pos hupper]
      dsimp only
      rw [UInt32.toNat_add, show ('a'.val - 'A'.val).toNat = 32 from rfl]
      omega
    have hascii : ∀ other : Char, other.val.toNat ≤ 122 → other.utf8Size = 1 :=
      fun other hle => utf8Size_of_ascii (decide_eq_true (Nat.lt_of_le_of_lt hle (by decide)))
    rw [hascii ch (by omega), hascii ch.toLower (by omega)]
  · unfold Char.toLower
    rw [dif_neg hupper]

theorem utf8Size_of_beyond (hch : Ascii.isAscii ch = false) : 1 < ch.utf8Size := by
  have hpos := ch.utf8Size_pos
  have hne : ch.utf8Size ≠ 1 := by
    intro hone
    have hle := UInt32.le_iff_toNat_le.1 (Char.utf8Size_eq_one_iff.1 hone)
    rw [Ascii.isAscii, decide_eq_false_iff_not] at hch
    exact hch (Nat.lt_succ_of_le hle)
  omega

theorem advance_of_end (hrest : c.rest = []) : c.advance = c := by
  rw [Cursor.advance, hrest]

theorem bump_of_end (hin : c.IsIn source) (hrest : c.rest = []) :
    bump source c.offset = c.advance.offset := by
  have hsize := hin.size_eq
  rw [hrest, utf8Length, Nat.add_zero] at hsize
  rw [advance_of_end hrest, bump, hsize, Nat.min_eq_right (Nat.le_succ _)]

theorem bump_of_ascii (hin : c.IsIn source) (hrest : c.rest = ch :: rest)
    (hch : Ascii.isAscii ch = true) : bump source c.offset = c.advance.offset := by
  have hlt := offset_lt_size hin hrest
  rw [Cursor.advance_of_rest hrest, bump, utf8Size_of_ascii hch]
  exact Nat.min_eq_left hlt

theorem skipWhile_offset (hp : IsUniform p) (hin : c.IsIn source) :
    skipWhile p source c.offset = (c.skipWhile p).offset := by
  rw [skipWhile, drop_signs hin, hp.takeWhile_signs, length_signs, Cursor.skipWhile,
    Cursor.offset_drop, ← List.prefix_iff_eq_take.1 (List.takeWhile_prefix p)]

theorem slice_covers {front text rest : List Char} :
    slice (front ++ (text ++ rest)) (utf8Length front) (utf8Length front + utf8Length text) =
      pure text := by
  have hstart : IsBoundary (front ++ (text ++ rest)) (utf8Length front) := ⟨_, _, rfl, rfl⟩
  have hstop : IsBoundary (front ++ (text ++ rest)) (utf8Length front + utf8Length text) :=
    ⟨front ++ text, rest, by rw [List.append_assoc], (utf8Length_append _ _).symm⟩
  have htake : takeBytes (utf8Length front + utf8Length text) (front ++ (text ++ rest)) =
      front ++ text := by
    rw [← utf8Length_append, ← List.append_assoc, takeBytes_append]
  rw [slice, if_pos ⟨Nat.le_add_right _ _, hstop.le⟩, if_pos ⟨hstart, hstop⟩, sliceBytes, htake,
    dropBytes_append]

theorem slice_offset (hin : c.IsIn source) (n : Nat) :
    slice source c.offset (c.drop n).offset = pure (c.rest.take n) := by
  have hsource : source = c.before.reverse ++ (c.rest.take n ++ c.rest.drop n) := by
    rw [List.take_append_drop]
    exact hin.text
  have hfront : utf8Length c.before.reverse = c.offset := by
    rw [utf8Length_reverse, hin.offset]
  have hslice := @slice_covers c.before.reverse (c.rest.take n) (c.rest.drop n)
  rw [← hsource, hfront, ← Cursor.offset_drop] at hslice
  exact hslice

theorem slice_rest (hin : c.IsIn source) :
    slice source c.offset (utf8Length source) = pure c.rest := by
  have hslice := slice_offset hin c.rest.length
  rw [Cursor.offset_drop, List.take_length, ← hin.size_eq] at hslice
  exact hslice

theorem skipPast_offset (pattern : List Char) (hin : c.IsIn source) :
    skipPast pattern source c.offset = pure (c.drop (lengthPast pattern c.rest)).offset := by
  rw [skipPast, slice_rest hin, pure_bind, Cursor.offset_drop]

/-- Behind the first byte of a character come bytes beyond ASCII, up to the next character. -/
theorem peek_inside (hin : c.IsIn source) (hrest : c.rest = ch :: rest) {n : Nat} (hpos : 0 < n)
    (hn : n < ch.utf8Size) : ∃ x ∈ peek source (c.offset + n), Ascii.isAscii x = false := by
  have hlength : n < (signs [ch]).length := by
    rw [length_signs, utf8Length]
    exact Nat.lt_add_right _ hn
  have hpeek : peek source (c.offset + n) = some (signs [ch])[n] := by
    rw [peek, ← List.getElem?_drop, drop_signs hin, hrest, signs_cons,
      List.getElem?_append_left hlength, List.getElem?_eq_getElem hlength]
  refine ⟨_, hpeek, ?_⟩
  rcases alike_of_mem_signs (List.getElem_mem hlength) with heq | hbeyond
  · rw [heq, ← Bool.not_eq_true]
    intro hascii
    rw [utf8Size_of_ascii hascii] at hn
    omega
  · exact hbeyond.1

/-- What a reader gives that passes over each byte beyond ASCII, as it goes on with the next byte. -/
def PassesBeyond {β : Type} (source : List Char) (read : Nat → β) : Prop :=
  ∀ offset, ∀ x ∈ peek source offset, Ascii.isAscii x = false →
    read offset = read (bump source offset)

/-- A reader that starts one byte on reads what it reads one character on. -/
theorem PassesBeyond.bump {β : Type} {read : Nat → β} (h : PassesBeyond source read)
    (hin : c.IsIn source) : read (bump source c.offset) = read c.advance.offset := by
  cases hrest : c.rest with
  | nil => rw [bump_of_end hin hrest]
  | cons ch rest =>
      have hsize := hin.size_eq
      have hchar := ch.utf8Size_pos
      rw [hrest, utf8Length] at hsize
      -- from each byte inside the character on, one byte after the other up to its end
      have hinside : ∀ left n, 0 < n → n + left = ch.utf8Size →
          read (c.offset + n) = read c.advance.offset := by
        intro left
        induction left with
        | zero =>
            rintro n - rfl
            rw [Cursor.advance_of_rest hrest]
        | succ left ih =>
            intro n hpos hn
            obtain ⟨x, hx, hbeyond⟩ := peek_inside hin hrest hpos (by omega)
            rw [h _ x hx hbeyond, Bytewise.bump, Nat.min_eq_left (by omega)]
            exact ih (n + 1) (Nat.succ_pos n) (by omega)
      rw [Bytewise.bump, Nat.min_eq_left (by omega)]
      exact hinside (ch.utf8Size - 1) 1 Nat.one_pos (by omega)

end Signs

end Bytewise

end ComponentTags
