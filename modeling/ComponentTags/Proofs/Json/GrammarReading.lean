import Mathlib.Data.List.TakeWhile
import ComponentTags.Proofs.Json.Grammar

/-!
Reading by the grammar. However a document is spelled, it is read as a value that stands for the same
data.
-/

namespace ComponentTags

theorem Utf8.encode_ascii {chars : List Char} (h : ∀ ch ∈ chars, ch.toNat < 0x80) :
    encode chars = chars.map fun ch => UInt8.ofNat ch.toNat := by
  induction chars with
  | nil => rfl
  | cons ch chars ih =>
      obtain ⟨hch, hchars⟩ := List.forall_mem_cons.1 h
      rw [encode_cons, (utf8EncodeChar_of_lt hch).1, ih hchars]
      rfl

namespace Json

variable {p q : Place} {rest bytes : List UInt8} {byte : UInt8}

theorem sign_ofNat {ch : Char} (h : ch.toNat < 0x80) : sign (UInt8.ofNat ch.toNat) = ch :=
  (Utf8.utf8EncodeChar_of_lt h).2

theorem lt_of_isDigit {ch : Char} (h : ch.isDigit = true) : ch.toNat < 0x80 := by
  have hle : ch.toNat ≤ '9'.toNat := (Char.isDigit_iff_toNat.1 h).2
  exact Nat.lt_of_le_of_lt hle (by decide)

/-- A byte that may come right after a value. -/
def IsFence (byte : UInt8) : Prop :=
  isBlank byte = true ∨ sign byte = ',' ∨ sign byte = ']' ∨ sign byte = '\x7d'

/-- What comes after a value, if anything does. -/
def IsFenced (bytes : List UInt8) : Prop :=
  ∀ byte ∈ bytes.head?, IsFence byte

/-! ### Digits and numbers -/

theorem IsFence.not_mem_number (h : IsFence byte) : (sign byte).isDigit = false ∧
    sign byte ≠ '.' ∧ sign byte ≠ 'e' ∧ sign byte ≠ 'E' := by
  unfold IsFence isBlank at h
  generalize sign byte = ch at h ⊢
  simp only [List.contains_cons, List.contains_nil, Bool.or_false, Bool.or_eq_true,
    beq_iff_eq] at h
  rcases h with (rfl | rfl | rfl | rfl) | rfl | rfl | rfl <;> decide

theorem Digits.encode_eq (digits : Digits) :
    Utf8.encode digits.chars = digits.chars.map fun ch => UInt8.ofNat ch.toNat :=
  Utf8.encode_ascii fun ch hch => lt_of_isDigit (digits.areDigits ch hch)

/-- Digits are read up to the first byte that is none. -/
theorem digits_eq (digits : Digits) (hp : p.rest = Utf8.encode digits.chars ++ rest)
    (hrest : ∀ byte ∈ rest.head?, (sign byte).isDigit = false) :
    p.digits = digits.chars.length ∧ (p.drop p.digits).rest = rest := by
  rw [digits.encode_eq] at hp
  have htaken : p.rest.takeWhile (fun byte => (sign byte).isDigit) =
      digits.chars.map fun ch => UInt8.ofNat ch.toNat := by
    rw [hp, List.takeWhile_append_of_pos]
    · cases rest with
      | nil => simp
      | cons byte rest =>
          rw [List.takeWhile_cons_of_neg (by simp [hrest byte rfl]), List.append_nil]
    · intro byte hbyte
      obtain ⟨ch, hch, rfl⟩ := List.mem_map.1 hbyte
      rw [sign_ofNat (lt_of_isDigit (digits.areDigits ch hch))]
      exact digits.areDigits ch hch
  have hcount : p.digits = digits.chars.length := by
    rw [Place.digits, htaken, List.length_map]
  refine ⟨hcount, ?_⟩
  rw [Place.drop, hcount, hp]
  exact List.drop_left' (by simp)

theorem next?_digits (digits : Digits) (hp : p.rest = Utf8.encode digits.chars ++ rest) :
    p.next? = digits.chars.head? := by
  rw [digits.encode_eq] at hp
  cases hchars : digits.chars with
  | nil => exact absurd hchars digits.nonempty
  | cons ch chars =>
      rw [hchars, List.map_cons] at hp
      rw [next?_eq hp, sign_ofNat (lt_of_isDigit (digits.areDigits ch (by simp [hchars]))),
        List.head?_cons]

theorem digits_pos (digits : Digits) : digits.chars.length ≠ 0 :=
  fun h => digits.nonempty (List.length_eq_zero_iff.1 h)

theorem readWhole_digits (digits : Digits) (hp : p.rest = Utf8.encode digits.chars ++ rest)
    (hrest : ∀ byte ∈ rest.head?, (sign byte).isDigit = false)
    (hunpadded : digits.chars.head? = some '0' → digits.chars.length = 1) :
    ∃ q, readWhole p = .ok q ∧ q.rest = rest := by
  obtain ⟨hcount, hdropped⟩ := digits_eq digits hp hrest
  obtain ⟨ch, hch⟩ : ∃ ch, digits.chars.head? = some ch := by
    cases hchars : digits.chars with
    | nil => exact absurd hchars digits.nonempty
    | cons ch chars => exact ⟨ch, rfl⟩
  refine ⟨p.drop p.digits, ?_, hdropped⟩
  have hzero : (ch = '0' && decide (p.digits > 1)) = false := by
    by_cases heq : ch = '0'
    · subst heq
      simp [hcount, hunpadded hch]
    · simp [heq]
  rw [readWhole, next?_digits digits hp, hch]
  dsimp only
  rw [if_neg (by rw [hcount]; exact digits_pos digits), if_neg (by simp [hzero])]

theorem readFraction_chars (numeral : Numeral)
    (hp : p.rest = Utf8.encode numeral.fractionChars ++ rest)
    (hrest : ∀ byte ∈ rest.head?, (sign byte).isDigit = false ∧ sign byte ≠ '.') :
    ∃ q, readFraction p = .ok q ∧ q.rest = rest := by
  unfold Numeral.fractionChars at hp
  cases hfraction : numeral.fraction with
  | none =>
      rw [hfraction] at hp
      have hnext : p.next? ≠ some '.' := by
        rw [Place.next?, show p.rest = rest from hp]
        cases rest with
        | nil => simp
        | cons byte rest => simpa using (hrest byte rfl).2
      exact ⟨p, by rw [readFraction, if_neg hnext], hp⟩
  | some digits =>
      rw [hfraction] at hp
      have hpoint : p.rest = '.'.toUInt8 :: (Utf8.encode digits.chars ++ rest) := hp
      have hdropped : (p.drop 1).rest = Utf8.encode digits.chars ++ rest := by
        rw [Place.drop, hpoint]
        rfl
      obtain ⟨hcount, hafter⟩ := digits_eq digits hdropped fun byte hbyte => (hrest byte hbyte).1
      have hnext : p.next? = some '.' := next?_eq hpoint
      refine ⟨(p.drop 1).drop (p.drop 1).digits, ?_, hafter⟩
      rw [readFraction, if_pos hnext]
      dsimp only
      rw [if_neg (by rw [hcount]; exact digits_pos digits)]

theorem Exponent.toNat_mark_lt (exponent : Exponent) : exponent.mark.toNat < 0x80 := by
  rcases exponent.isMark with h | h <;> rw [h] <;> decide

/-- The mark of an exponent is read with its sign. -/
theorem exponent_sign (exponent : Exponent) (hp : p.rest = Utf8.encode exponent.chars ++ rest) :
    (p.next? = some 'e' || p.next? = some 'E') = true ∧
      (p.drop (if (p.drop 1).next? = some '+' || (p.drop 1).next? = some '-' then 2 else 1)).rest =
        Utf8.encode exponent.digits.chars ++ rest := by
  have hascii := exponent.toNat_mark_lt
  have hmark : p.rest = UInt8.ofNat exponent.mark.toNat ::
      (Utf8.encode exponent.sign ++ (Utf8.encode exponent.digits.chars ++ rest)) := by
    rw [hp, Exponent.chars, Utf8.encode_cons, (Utf8.utf8EncodeChar_of_lt hascii).1,
      Utf8.encode_append]
    simp
  have hdropped : (p.drop 1).rest =
      Utf8.encode exponent.sign ++ (Utf8.encode exponent.digits.chars ++ rest) := by
    rw [Place.drop, hmark]
    rfl
  constructor
  · rw [next?_eq hmark, sign_ofNat hascii]
    rcases exponent.isMark with h | h <;> simp [h]
  · rcases exponent.isSign with h | h | h
    · rw [h] at hdropped
      have hnext := next?_digits exponent.digits (show (p.drop 1).rest = _ from hdropped)
      have hunsigned : ((p.drop 1).next? = some '+' || (p.drop 1).next? = some '-') = false := by
        rw [hnext]
        cases hchars : exponent.digits.chars with
        | nil => rfl
        | cons ch chars =>
            have hdigit := exponent.digits.areDigits ch (by simp [hchars])
            have hne : ch ≠ '+' ∧ ch ≠ '-' := by
              constructor <;> rintro rfl <;> cases hdigit
            simp [hne]
      rw [hunsigned]
      exact hdropped
    · rw [h] at hdropped
      have hnext : (p.drop 1).next? = some '+' := next?_eq hdropped
      rw [hnext, Place.drop, hmark, h]
      rfl
    · rw [h] at hdropped
      have hnext : (p.drop 1).next? = some '-' := next?_eq hdropped
      rw [hnext, Place.drop, hmark, h]
      rfl

theorem readExponent_chars (numeral : Numeral)
    (hp : p.rest = Utf8.encode numeral.exponentChars ++ rest)
    (hrest : ∀ byte ∈ rest.head?, (sign byte).isDigit = false ∧ sign byte ≠ 'e' ∧
      sign byte ≠ 'E') : ∃ q, readExponent p = .ok q ∧ q.rest = rest := by
  unfold Numeral.exponentChars at hp
  cases hexponent : numeral.exponent with
  | none =>
      rw [hexponent] at hp
      have hnext : (p.next? = some 'e' || p.next? = some 'E') = false := by
        rw [Place.next?, show p.rest = rest from hp]
        cases rest with
        | nil => rfl
        | cons byte rest =>
            obtain ⟨-, hsmall, hcapital⟩ := hrest byte rfl
            simp [hsmall, hcapital]
      exact ⟨p, by rw [readExponent, hnext]; rfl, hp⟩
  | some exponent =>
      rw [hexponent] at hp
      obtain ⟨hmark, hdropped⟩ := exponent_sign exponent hp
      generalize hplace : p.drop (if (p.drop 1).next? = some '+' || (p.drop 1).next? = some '-'
        then 2 else 1) = q at hdropped
      obtain ⟨hcount, hafter⟩ :=
        digits_eq exponent.digits hdropped fun byte hbyte => (hrest byte hbyte).1
      have hmore : q.rest.isEmpty = false := by
        rw [hdropped, exponent.digits.encode_eq]
        simp [exponent.digits.nonempty]
      refine ⟨q.drop q.digits, ?_, hafter⟩
      rw [readExponent, hmark]
      dsimp only
      rw [if_pos rfl, hplace, hmore, if_neg Bool.false_ne_true,
        if_neg (by rw [hcount]; exact digits_pos exponent.digits)]

theorem head_exponentChars (numeral : Numeral) (hrest : IsFenced rest) :
    ∀ byte ∈ (Utf8.encode numeral.exponentChars ++ rest).head?,
      (sign byte).isDigit = false ∧ sign byte ≠ '.' := by
  intro byte hbyte
  unfold Numeral.exponentChars at hbyte
  cases hexponent : numeral.exponent with
  | none =>
      rw [hexponent] at hbyte
      have hfence := (hrest byte hbyte).not_mem_number
      exact ⟨hfence.1, hfence.2.1⟩
  | some exponent =>
      have hmark : sign byte = exponent.mark := by
        have hascii : exponent.mark.toNat < 0x80 := by
          rcases exponent.isMark with h | h <;> rw [h] <;> decide
        rw [hexponent, Option.elim_some, Exponent.chars, Utf8.encode_cons,
          (Utf8.utf8EncodeChar_of_lt hascii).1] at hbyte
        obtain rfl : UInt8.ofNat exponent.mark.toNat = byte := Option.some.inj hbyte
        exact sign_ofNat hascii
      rw [hmark]
      rcases exponent.isMark with h | h <;> rw [h] <;> decide

theorem head_fractionChars (numeral : Numeral) (hrest : IsFenced rest) :
    ∀ byte ∈ (Utf8.encode numeral.fractionChars ++
      (Utf8.encode numeral.exponentChars ++ rest)).head?, (sign byte).isDigit = false := by
  intro byte hbyte
  unfold Numeral.fractionChars at hbyte
  cases hfraction : numeral.fraction with
  | none =>
      rw [hfraction] at hbyte
      exact (head_exponentChars numeral hrest byte hbyte).1
  | some digits =>
      rw [hfraction] at hbyte
      obtain rfl : '.'.toUInt8 = byte := Option.some.inj hbyte
      decide

/-- The sign of a number is read before its digits. -/
theorem number_sign (numeral : Numeral) (hp : p.rest = Utf8.encode numeral.chars ++ rest) :
    (if p.next? = some '-' then p.drop 1 else p).rest = Utf8.encode numeral.whole.chars ++
      (Utf8.encode numeral.fractionChars ++ (Utf8.encode numeral.exponentChars ++ rest)) := by
  simp only [Numeral.chars, Utf8.encode_append, List.append_assoc] at hp
  unfold Numeral.signChars at hp
  cases hsign : numeral.isNegative with
  | true =>
      rw [hsign] at hp
      have hnext : p.next? = some '-' := next?_eq hp
      rw [if_pos hnext, Place.drop, hp]
      rfl
  | false =>
      rw [hsign] at hp
      have hnext : p.next? ≠ some '-' := by
        rw [next?_digits numeral.whole hp]
        cases hchars : numeral.whole.chars with
        | nil => simp
        | cons ch chars =>
            rintro ⟨rfl⟩
            cases numeral.whole.areDigits '-' (by simp [hchars])
      rw [if_neg hnext]
      exact hp

/-- **A number is read up to what may come after a value.** -/
theorem readNumber_chars (numeral : Numeral) (hp : p.rest = Utf8.encode numeral.chars ++ rest)
    (hrest : IsFenced rest) : Yields (readNumber p) (Utf8.encode numeral.chars) rest := by
  obtain ⟨whole, hwhole, hfractionRest⟩ := readWhole_digits numeral.whole (number_sign numeral hp)
    (head_fractionChars numeral hrest) numeral.isUnpadded
  obtain ⟨fraction, hfraction, hexponentRest⟩ := readFraction_chars numeral hfractionRest
    (head_exponentChars numeral hrest)
  obtain ⟨last, hexponent, hlast⟩ := readExponent_chars numeral hexponentRest fun byte hbyte =>
    ⟨(hrest byte hbyte).not_mem_number.1, (hrest byte hbyte).not_mem_number.2.2⟩
  have htaken : p.rest.take (p.left - last.left) = Utf8.encode numeral.chars := by
    rw [Place.left, Place.left, hp, hlast, List.length_append, Nat.add_sub_cancel,
      List.take_left]
  have hlonger : last.left < p.left := by
    have hpos := List.length_pos_iff.2 numeral.whole.nonempty
    rw [Place.left, Place.left, hp, hlast, List.length_append, Numeral.chars, Utf8.encode_append,
      Utf8.encode_append, numeral.whole.encode_eq]
    simp only [List.length_append, List.length_map]
    omega
  unfold readNumber
  split
  · next fault hfault => rw [hwhole] at hfault; cases hfault
  · next whole' hwhole' =>
      obtain rfl := Except.ok.inj (hwhole.symm.trans hwhole')
      split
      · next fault hfault => rw [hfraction] at hfault; cases hfault
      · next fraction' hfraction' =>
          obtain rfl := Except.ok.inj (hfraction.symm.trans hfraction')
          split
          · next fault hfault => rw [hexponent] at hfault; cases hfault
          · next last' hlast' =>
              obtain rfl := Except.ok.inj (hexponent.symm.trans hlast')
              exact ⟨last, hlonger, by simp only [htaken], hlast⟩

/-! ### Texts -/

theorem lt_of_isHexDigit {ch : Char} (h : ch.isHexDigit = true) : ch.toNat < 0x80 := by
  unfold Char.isHexDigit at h
  simp only [Bool.or_eq_true, Bool.and_eq_true, decide_eq_true_eq] at h
  rcases h with (hdigit | ⟨-, hle⟩) | ⟨-, hle⟩
  · exact lt_of_isDigit hdigit
  · exact Nat.lt_of_le_of_lt (UInt32.le_iff_toNat_le.1 hle) (by decide)
  · exact Nat.lt_of_le_of_lt (UInt32.le_iff_toNat_le.1 hle) (by decide)

theorem hexDigitNumber_eq : ∀ n < 0x80, (Char.ofNat n).isHexDigit = true →
    (let ch := (sign (UInt8.ofNat n)).toLower
     if ch.isDigit then ch.toNat - '0'.toNat else ch.toNat - 'a'.toNat + 10) =
      hexDigitNumber (Char.ofNat n) := by
  decide

theorem hexValue_code {a b c d : Char}
    (h : ∀ digit ∈ [a, b, c, d], digit.isHexDigit = true) :
    hexValue ([a, b, c, d].map fun ch => UInt8.ofNat ch.toNat) = codeNumber a b c d := by
  have hdigit (ch : Char) (hch : ch ∈ [a, b, c, d]) :
      (let lower := (sign (UInt8.ofNat ch.toNat)).toLower
       if lower.isDigit then lower.toNat - '0'.toNat else lower.toNat - 'a'.toNat + 10) =
        hexDigitNumber ch := by
    have heq := hexDigitNumber_eq ch.toNat (lt_of_isHexDigit (h ch hch))
    rw [Char.ofNat_toNat] at heq
    exact heq (h ch hch)
  rw [hexValue, codeNumber, List.foldl_map]
  simp only [List.foldl_cons, List.foldl_nil]
  rw [← hdigit a (by simp), ← hdigit b (by simp), ← hdigit c (by simp), ← hdigit d (by simp)]

theorem encode_code {a b c d : Char} (h : ∀ digit ∈ [a, b, c, d], digit.isHexDigit = true) :
    Utf8.encode ['\\', 'u', a, b, c, d] = '\\'.toUInt8 :: 'u'.toUInt8 ::
      [a, b, c, d].map fun ch => UInt8.ofNat ch.toNat := by
  have hascii : ∀ ch ∈ ['\\', 'u', a, b, c, d], ch.toNat < 0x80 := by
    intro ch hch
    rcases List.mem_cons.1 hch with rfl | hch
    · decide
    · rcases List.mem_cons.1 hch with rfl | hch
      · decide
      · exact lt_of_isHexDigit (h ch hch)
  rw [Utf8.encode_ascii hascii]
  rfl

theorem encode_short {letter : Char}
    (h : letter ∈ ['"', '\\', '/', 'b', 'f', 'n', 'r', 't']) :
    ∃ byte, sign byte = letter ∧ Utf8.encode ['\\', letter] = ['\\'.toUInt8, byte] ∧
      Utf8.encode [shortChar letter] = [shortEscape byte] := by
  simp only [List.mem_cons, List.not_mem_nil, or_false] at h
  rcases h with rfl | rfl | rfl | rfl | rfl | rfl | rfl | rfl <;> exact ⟨_, rfl, rfl, rfl⟩

theorem escapesTo_shortChar {letter : Char}
    (h : letter ∈ ['"', '\\', '/', 'b', 'f', 'n', 'r', 't']) :
    EscapesTo (Utf8.encode ['\\', letter]) (Utf8.encode [shortChar letter]) := by
  obtain ⟨byte, hsign, hencoded, hshort⟩ := encode_short h
  rw [hencoded, hshort]
  exact escapesTo_short (by rw [hsign]; exact List.contains_iff_mem.2 h)

theorem escapesTo_plain {ch : Char} (hquote : ch ≠ '"') (hslash : ch ≠ '\\')
    (hcontrol : ¬ch.toNat < 0x20) : EscapesTo (Utf8.encode [ch]) (Utf8.encode [ch]) := by
  have hbytes : Utf8.encode [ch] = String.utf8EncodeChar ch := by simp [Utf8.encode]
  rw [hbytes]
  exact escapesTo_of_open fun byte hbyte => isOpenByte_of_mem hbyte hquote hslash hcontrol

theorem scanText_piece (piece : Piece) (done : List UInt8) (offset : Nat) (rest : List UInt8) :
    scanText done offset (Utf8.encode piece.chars ++ rest) =
      scanText ((Utf8.encode piece.chars).reverse ++ done)
        (offset + (Utf8.encode piece.chars).length) rest := by
  cases piece with
  | plain ch hquote hslash hcontrol =>
      exact (escapesTo_plain hquote hslash hcontrol).scanned done offset rest
  | short letter hletter => exact (escapesTo_shortChar hletter).scanned done offset rest
  | code a b c d hdigits =>
      have hhex : ((([a, b, c, d].map fun ch => UInt8.ofNat ch.toNat)).all
          fun digit => (sign digit).isHexDigit) = true := by
        rw [List.all_map, List.all_eq_true]
        intro ch hch
        rw [Function.comp, sign_ofNat (lt_of_isHexDigit (hdigits ch hch))]
        exact hdigits ch hch
      rw [Piece.chars, encode_code hdigits]
      exact scanText_long hhex done offset rest

theorem scanText_pieces (pieces : List Piece) (done : List UInt8) (offset : Nat)
    (rest : List UInt8) :
    scanText done offset (Utf8.encode (pieces.flatMap Piece.chars) ++ rest) =
      scanText ((Utf8.encode (pieces.flatMap Piece.chars)).reverse ++ done)
        (offset + (Utf8.encode (pieces.flatMap Piece.chars)).length) rest := by
  induction pieces generalizing done offset with
  | nil => rfl
  | cons piece pieces ih =>
      rw [List.flatMap_cons, Utf8.encode_append, List.append_assoc, scanText_piece, ih]
      simp [Nat.add_assoc]

/-! ### What texts stand for -/

theorem readEscape_code {a b c d : Char}
    (h : ∀ digit ∈ [a, b, c, d], digit.isHexDigit = true) (rest : List UInt8) :
    readEscape ('u'.toUInt8 :: (([a, b, c, d].map fun ch => UInt8.ofNat ch.toNat) ++ rest)) =
      if isLowHalf (codeNumber a b c d) then .error .loneSurrogate
      else if isHighHalf (codeNumber a b c d) then
        (readLowHalf rest).map fun found =>
          (Utf8.encode [joinHalves (codeNumber a b c d) found.1], found.2)
      else .ok (Utf8.encode [Char.ofNat (codeNumber a b c d)], rest) := by
  rw [← hexValue_code h, readEscape.eq_def]
  simp only [List.map_cons, List.map_nil, List.cons_append, List.nil_append, readCode]
  rw [if_pos (by decide)]
  cases readLowHalf rest <;> rfl

theorem readLowHalf_code {a b c d : Char}
    (h : ∀ digit ∈ [a, b, c, d], digit.isHexDigit = true) (rest : List UInt8) :
    readLowHalf ('\\'.toUInt8 :: 'u'.toUInt8 ::
      (([a, b, c, d].map fun ch => UInt8.ofNat ch.toNat) ++ rest)) =
      if isLowHalf (codeNumber a b c d) then .ok (codeNumber a b c d, rest)
      else .error .loneSurrogate := by
  rw [← hexValue_code h, readLowHalf.eq_def]
  simp only [List.map_cons, List.map_nil, List.cons_append, List.nil_append, readCode]
  exact if_pos (by decide)

/-- What is no escape of four digits is no half of a character. -/
theorem readLowHalf_error (h : ∀ slash escape rest, bytes = slash :: escape :: rest →
    ¬(sign slash = '\\' ∧ sign escape = 'u')) :
    ∃ problem, readLowHalf bytes = .error problem := by
  rw [readLowHalf.eq_def]
  split
  · next slash escape rest =>
      have hother := h slash escape rest rfl
      split
      · exact ⟨_, rfl⟩
      · exact ⟨_, if_neg (by simpa using hother)⟩
  · exact ⟨_, rfl⟩

theorem toOption_map {ε α β : Type} (f : α → β) (result : Except ε α) :
    (result.map f).toOption = result.toOption.map f := by
  cases result <;> rfl

theorem map_encode_cons (ch : Char) (found : Option (List Char)) :
    (found.map Utf8.encode).map (Utf8.encode [ch] ++ ·) =
      (found.map (ch :: ·)).map Utf8.encode := by
  cases found with
  | none => rfl
  | some text => simp [← Utf8.encode_append]

/-- A half of a character that stands on its own stands for nothing. -/
theorem unescape_alone {a b c d : Char}
    (h : ∀ digit ∈ [a, b, c, d], digit.isHexDigit = true)
    (hhalf : isLowHalf (codeNumber a b c d) = true ∨ isHighHalf (codeNumber a b c d) = true ∧
      ∃ problem, readLowHalf rest = .error problem) :
    (unescape (Utf8.encode ['\\', 'u', a, b, c, d] ++ rest)).toOption = none := by
  have hescape : ∃ problem, readEscape
      ('u'.toUInt8 :: (([a, b, c, d].map fun ch => UInt8.ofNat ch.toNat) ++ rest)) =
        .error problem := by
    rw [readEscape_code h]
    rcases hhalf with hlow | ⟨hhigh, problem, halone⟩
    · exact ⟨_, if_pos hlow⟩
    · split
      · exact ⟨_, rfl⟩
      · exact ⟨problem, by rw [halone]; rfl⟩
  obtain ⟨problem, hescape⟩ := hescape
  rw [encode_code h]
  exact congrArg Except.toOption (unescape_slash_error hescape)

/-- Pieces that do not begin with an escape of four digits hold no half of a character. -/
theorem readLowHalf_pieces {pieces : List Piece}
    (h : ∀ a b c d hdigits others, pieces ≠ .code a b c d hdigits :: others) :
    ∃ problem, readLowHalf (Utf8.encode (pieces.flatMap Piece.chars)) = .error problem := by
  apply readLowHalf_error
  rintro slash escape rest hbytes ⟨hslash, hescape⟩
  cases pieces with
  | nil => cases hbytes
  | cons piece pieces =>
      rw [List.flatMap_cons, Utf8.encode_append] at hbytes
      cases piece with
      | plain ch hquote hplain hcontrol =>
          have hencoded : Utf8.encode [ch] = String.utf8EncodeChar ch := by simp [Utf8.encode]
          obtain ⟨byte, more, hfirst, -⟩ := Utf8.readChar_encoded ch []
          rw [Piece.chars, hencoded, hfirst] at hbytes
          obtain rfl : byte = slash := (List.cons.inj hbytes).1
          have hopen := isOpenByte_of_mem (by rw [hfirst]; exact List.mem_cons_self) hquote hplain
            hcontrol
          exact hopen.slash hslash
      | short letter hletter =>
          obtain ⟨byte, hsign, hencoded, -⟩ := encode_short hletter
          rw [Piece.chars, hencoded] at hbytes
          obtain rfl : byte = escape := (List.cons.inj (List.cons.inj hbytes).2).1
          rw [← hsign, hescape] at hletter
          exact absurd hletter (by decide)
      | code a b c d hdigits => exact h a b c d hdigits pieces rfl

/-- **What the pieces of a text stand for is what it is decoded to.** -/
theorem unescape_pieces (pieces : List Piece) :
    (unescape (Utf8.encode (pieces.flatMap Piece.chars))).toOption =
      (content? pieces).map Utf8.encode := by
  fun_induction content? pieces with
  | case1 =>
      rw [List.flatMap_nil, Utf8.encode, List.flatMap_nil, unescape]
      rfl
  | case2 ch hquote hslash hcontrol pieces ih =>
      rw [List.flatMap_cons, Utf8.encode_append, Piece.chars,
        (escapesTo_plain hquote hslash hcontrol).unescaped, toOption_map, ih, map_encode_cons]
  | case3 letter hletter pieces ih =>
      rw [List.flatMap_cons, Utf8.encode_append, Piece.chars,
        (escapesTo_shortChar hletter).unescaped, toOption_map, ih, map_encode_cons]
  | case4 a b c d hdigits pieces code hlow =>
      rw [List.flatMap_cons, Utf8.encode_append, Piece.chars]
      exact unescape_alone hdigits (.inl hlow)
  | case5 a b c d hdigits code hlow hhigh a' b' c' d' hdigits' pieces code' hlow' ih =>
      rw [List.flatMap_cons, List.flatMap_cons, Utf8.encode_append, Utf8.encode_append, Piece.chars,
        Piece.chars, encode_code hdigits, encode_code hdigits']
      have hescape := readEscape_code hdigits ('\\'.toUInt8 :: 'u'.toUInt8 ::
        (([a', b', c', d'].map fun ch => UInt8.ofNat ch.toNat) ++
          Utf8.encode (pieces.flatMap Piece.chars)))
      rw [if_neg hlow, if_pos hhigh, readLowHalf_code hdigits', if_pos hlow'] at hescape
      exact (congrArg Except.toOption (unescape_slash hescape)).trans
        (by rw [toOption_map, ih, map_encode_cons])
  | case6 a b c d hdigits code hlow hhigh a' b' c' d' hdigits' pieces code' hlow' =>
      rw [List.flatMap_cons, Utf8.encode_append, Piece.chars]
      refine unescape_alone hdigits (.inr ⟨hhigh, .loneSurrogate, ?_⟩)
      rw [List.flatMap_cons, Utf8.encode_append, Piece.chars, encode_code hdigits']
      exact (readLowHalf_code hdigits' _).trans (if_neg hlow')
  | case7 a b c d hdigits pieces code hlow hhigh hother =>
      rw [List.flatMap_cons, Utf8.encode_append, Piece.chars]
      exact unescape_alone hdigits (.inr ⟨hhigh, readLowHalf_pieces hother⟩)
  | case8 a b c d hdigits pieces code hlow hhigh ih =>
      rw [List.flatMap_cons, Utf8.encode_append, Piece.chars, encode_code hdigits]
      have hescape := readEscape_code hdigits (Utf8.encode (pieces.flatMap Piece.chars))
      rw [if_neg hlow, if_neg hhigh] at hescape
      exact (congrArg Except.toOption (unescape_slash hescape)).trans
        (by rw [toOption_map, ih, map_encode_cons])

theorem decode_of_bytes {raw : RawText} {pieces : List Piece}
    (h : raw.bytes = Utf8.encode (pieces.flatMap Piece.chars)) :
    raw.decode.toOption = textOf pieces := by
  have hunescaped := unescape_pieces pieces
  unfold RawText.decode textOf
  rw [h]
  cases hresult : unescape (Utf8.encode (pieces.flatMap Piece.chars)) with
  | error problem =>
      rw [hresult] at hunescaped
      cases hcontent : content? pieces with
      | none => rfl
      | some text =>
          rw [hcontent] at hunescaped
          cases hunescaped
  | ok found =>
      rw [hresult] at hunescaped
      cases hcontent : content? pieces with
      | none =>
          rw [hcontent] at hunescaped
          cases hunescaped
      | some text =>
          rw [hcontent] at hunescaped
          obtain rfl : found = Utf8.encode text := Option.some.inj hunescaped
          dsimp only
          rw [Utf8.decode?_encode]
          rfl

/-- **A text is read as what it stands for**, up to its closing quote. -/
theorem readText_pieces {pieces : List Piece}
    (hp : p.rest = Utf8.encode (textChars pieces) ++ rest) :
    ∃ raw, Yields (readText p) raw rest ∧ raw.decode.toOption = textOf pieces := by
  have hbytes : p.rest = '"'.toUInt8 ::
      (Utf8.encode (pieces.flatMap Piece.chars) ++ '"'.toUInt8 :: rest) := by
    rw [hp, textChars, Utf8.encode_cons, Utf8.encode_append]
    simp
    rfl
  obtain ⟨raw, hread, hraw⟩ := readText_of_scan hbytes (scanText_pieces pieces)
  exact ⟨raw, hread, decode_of_bytes hraw⟩

/-! ### Blanks and leads -/

theorem areBlank_encode (blanks : Blanks) : AreBlank (Utf8.encode blanks.chars) := by
  have hascii (ch : Char) (hch : ch ∈ blanks.chars) : ch.toNat < 0x80 := by
    have hmem := blanks.areBlank ch hch
    simp only [List.mem_cons, List.not_mem_nil, or_false] at hmem
    rcases hmem with rfl | rfl | rfl | rfl <;> decide
  rw [Utf8.encode_ascii hascii]
  intro byte hbyte
  obtain ⟨ch, hch, rfl⟩ := List.mem_map.1 hbyte
  rw [isBlank, sign_ofNat (hascii ch hch)]
  exact List.contains_iff_mem.2 (blanks.areBlank ch hch)

theorem isFenced_encode (blanks : Blanks) : IsFenced (Utf8.encode blanks.chars) :=
  fun byte hbyte => .inl (areBlank_encode blanks byte (List.mem_of_mem_head? hbyte))

theorem isFenced_append (blanks : Blanks) (hbyte : IsFence byte) :
    IsFenced (Utf8.encode blanks.chars ++ byte :: rest) := by
  intro first hfirst
  cases hblanks : Utf8.encode blanks.chars with
  | nil =>
      rw [hblanks] at hfirst
      obtain rfl : byte = first := Option.some.inj hfirst
      exact hbyte
  | cons blank blanks' =>
      rw [hblanks] at hfirst
      obtain rfl : blank = first := Option.some.inj hfirst
      exact .inl (areBlank_encode blanks _ (by rw [hblanks]; exact List.mem_cons_self))

/-- A part of a series is come to over what stands before it. -/
theorem step_lead {series : Series} {first : Bool} {before after : Blanks}
    (h : p.rest = Utf8.encode (leadChars first before after) ++ byte :: rest)
    (hbyte : isBlank byte = false) (hopen : sign byte ≠ series.close)
    (hcomma : series.close ≠ ',') :
    ∃ q, series.step first p = .ok (.part q) ∧ q.rest = byte :: rest := by
  cases first with
  | true => exact step_first h (areBlank_encode after) hbyte hopen
  | false =>
      have hparts : p.rest = Utf8.encode before.chars ++
          ','.toUInt8 :: (Utf8.encode after.chars ++ byte :: rest) := by
        rw [h, leadChars, if_neg Bool.false_ne_true, Utf8.encode_append, Utf8.encode_cons,
          List.append_assoc]
        rfl
      exact step_next hparts (areBlank_encode before) (areBlank_encode after) hbyte hopen hcomma

/-! ### Values -/

theorem readValue_number {ch : Char} (hnext : p.skipBlanks.next? = some ch)
    (hch : ch = '-' ∨ ch.isDigit = true)
    (hnumber : Yields (readNumber p.skipBlanks) bytes rest) :
    ∃ extent, Yields (readValue p) (.number extent bytes) rest := by
  obtain ⟨last, hlast, hread, hrest⟩ := hnumber
  have hne (other : Char) (hother : (other = '-' ∨ other.isDigit = true) → False) : ch ≠ other := by
    rintro rfl
    exact hother hch
  refine ⟨p.skipBlanks.upTo last, last, ?_⟩
  rw [readValue]
  split
  · next hnone => rw [hnext] at hnone; cases hnone
  · next found hfound =>
      obtain rfl : ch = found := Option.some.inj (hnext.symm.trans hfound)
      rw [if_neg (hne _ (by decide)), if_neg (hne _ (by decide)), if_neg (hne _ (by decide)),
        if_neg (hne _ (by decide)), if_neg (hne _ (by decide)), if_neg (hne _ (by decide)),
        if_pos (by simpa using hch), hread]
      exact ⟨Nat.lt_of_lt_of_le hlast p.left_skipBlanks_le, rfl, hrest⟩

/-- How a number begins. -/
theorem exists_first_numeral (numeral : Numeral) : ∃ byte others,
    Utf8.encode numeral.chars = byte :: others ∧
      (sign byte = '-' ∨ (sign byte).isDigit = true) := by
  obtain ⟨isNegative, whole, fraction, exponent, -⟩ := numeral
  unfold Numeral.chars Numeral.signChars
  cases isNegative with
  | true => exact ⟨_, _, rfl, .inl (by decide)⟩
  | false =>
      cases hwhole : whole.chars with
      | nil => exact absurd hwhole whole.nonempty
      | cons ch chars =>
          have hdigit := whole.areDigits ch (by simp [hwhole])
          have hencoded := (Utf8.utf8EncodeChar_of_lt (lt_of_isDigit hdigit)).1
          refine ⟨_, _, by
            rw [if_neg Bool.false_ne_true, List.nil_append, List.cons_append, Utf8.encode_cons,
              hencoded]
            rfl, .inr ?_⟩
          rw [sign_ofNat (lt_of_isDigit hdigit)]
          exact hdigit

/-- How a value begins. -/
theorem exists_first (spelling : Spelling) : ∃ byte others,
    Utf8.encode spelling.chars = byte :: others ∧ isBlank byte = false ∧ sign byte ≠ ']' := by
  cases spelling with
  | null => exact ⟨_, _, rfl, by decide⟩
  | bool value => cases value <;> exact ⟨_, _, rfl, by decide⟩
  | text pieces => exact ⟨_, _, rfl, by decide⟩
  | array items => exact ⟨_, _, rfl, by decide⟩
  | object members => exact ⟨_, _, rfl, by decide⟩
  | number numeral =>
      obtain ⟨byte, others, hencoded, hsign⟩ := exists_first_numeral numeral
      refine ⟨byte, others, hencoded, ?_⟩
      unfold isBlank
      generalize sign byte = ch at hsign
      rcases hsign with rfl | hdigit
      · decide
      · have hne (other : Char) (hother : other.isDigit = false) : ch ≠ other := by
          rintro rfl
          exact absurd hdigit (by simp [hother])
        simp [hne]

theorem rest_skipBlanks_spelling {spelling : Spelling} {blanks : Blanks}
    (h : p.rest = Utf8.encode blanks.chars ++ (Utf8.encode spelling.chars ++ rest)) :
    p.skipBlanks.rest = Utf8.encode spelling.chars ++ rest := by
  obtain ⟨byte, others, hencoded, hbyte, -⟩ := exists_first spelling
  rw [hencoded] at h ⊢
  exact rest_skipBlanks h (areBlank_encode blanks) hbyte

theorem isFenced_items (items : ItemSpellings) :
    IsFenced (Utf8.encode (items.chars false) ++ rest) := by
  cases items with
  | close blanks =>
      rw [ItemSpellings.chars, Utf8.encode_append, List.append_assoc]
      exact isFenced_append blanks (.inr (.inr (.inl (by decide))))
  | part before after item items =>
      rw [ItemSpellings.chars, leadChars, if_neg Bool.false_ne_true, Utf8.encode_append,
        Utf8.encode_append, List.append_assoc, List.append_assoc]
      exact isFenced_append before (.inr (.inl (by decide)))

theorem isFenced_members (members : MemberSpellings) :
    IsFenced (Utf8.encode (members.chars false) ++ rest) := by
  cases members with
  | close blanks =>
      rw [MemberSpellings.chars, Utf8.encode_append, List.append_assoc]
      exact isFenced_append blanks (.inr (.inr (.inr (by decide))))
  | part before after key beforeColon afterColon value members =>
      rw [MemberSpellings.chars, leadChars, if_neg Bool.false_ne_true, Utf8.encode_append,
        Utf8.encode_append, List.append_assoc, List.append_assoc]
      exact isFenced_append before (.inr (.inl (by decide)))

/-! ### Documents -/

mutual

/-- **A value is read as what it stands for**, however it is spelled. -/
theorem readValue_spelling (spelling : Spelling) {p : Place} {rest : List UInt8}
    (hp : p.skipBlanks.rest = Utf8.encode spelling.chars ++ rest) (hrest : IsFenced rest) :
    ∃ value, Yields (readValue p) value rest ∧ value.datum = spelling.datum := by
  match spelling with
  | .null =>
      have hnull : ("null", Value.null) ∈ wordValues := List.mem_cons_self
      obtain ⟨extent, hread⟩ := readValue_word hnull hp
      exact ⟨_, hread, rfl⟩
  | .bool value =>
      obtain ⟨extent, hread⟩ := readValue_word (mem_wordValues value) hp
      exact ⟨_, hread, rfl⟩
  | .number numeral =>
      obtain ⟨byte, others, hencoded, hsign⟩ := exists_first_numeral numeral
      have hnext : p.skipBlanks.next? = some (sign byte) := by
        rw [Spelling.chars, hencoded] at hp
        exact next?_eq hp
      obtain ⟨extent, hread⟩ := readValue_number hnext hsign (readNumber_chars numeral hp hrest)
      exact ⟨_, hread, rfl⟩
  | .text pieces =>
      obtain ⟨raw, hread, hdecode⟩ := readText_pieces hp
      have hnext : p.skipBlanks.next? = some '"' := by
        rw [Place.next?, hp]
        rfl
      exact ⟨_, readValue_text hnext hread, by rw [Value.datum, hdecode, Spelling.datum]⟩
  | .array items =>
      have hdropped : (p.skipBlanks.drop 1).rest = Utf8.encode (items.chars true) ++ rest := by
        rw [Place.drop, hp]
        rfl
      have hnext : p.skipBlanks.next? = some '[' := by
        rw [Place.next?, hp]
        rfl
      obtain ⟨values, hreads, hdata⟩ := readItems_spelling items hdropped
      obtain ⟨extent, hread⟩ := readValue_array hnext hreads
      exact ⟨_, hread, by rw [Value.datum, hdata, Spelling.datum]⟩
  | .object members =>
      have hdropped : (p.skipBlanks.drop 1).rest = Utf8.encode (members.chars true) ++ rest := by
        rw [Place.drop, hp]
        rfl
      have hnext : p.skipBlanks.next? = some '\x7b' := by
        rw [Place.next?, hp]
        rfl
      obtain ⟨values, hreads, hdata⟩ := readMembers_spelling members hdropped
      obtain ⟨extent, hread⟩ := readValue_object hnext hreads
      exact ⟨_, hread, by rw [Value.datum, hdata, Spelling.datum]⟩

theorem readItems_spelling (items : ItemSpellings) {first : Bool} {p : Place} {rest : List UInt8}
    (hp : p.rest = Utf8.encode (items.chars first) ++ rest) :
    ∃ values, Yields (readItems p first) values rest ∧ Value.data values = items.data := by
  match items with
  | .close blanks =>
      rw [ItemSpellings.chars, Utf8.encode_append, List.append_assoc] at hp
      exact ⟨[], readItems_close hp (areBlank_encode blanks), rfl⟩
  | .part before after item items =>
      obtain ⟨byte, others, hencoded, hbyte, hopen⟩ := exists_first item
      rw [ItemSpellings.chars, Utf8.encode_append, Utf8.encode_append, hencoded,
        List.append_assoc, List.append_assoc, List.cons_append] at hp
      obtain ⟨q, hstep, hq⟩ : ∃ q, Series.items.step first p = .ok (.part q) ∧ q.rest = _ :=
        step_lead hp hbyte hopen (by decide)
      have hskipped : q.skipBlanks.rest =
          Utf8.encode item.chars ++ (Utf8.encode (items.chars false) ++ rest) := by
        rw [hencoded]
        exact rest_skipBlanks (show q.rest = [] ++ _ from hq) areBlank_nil hbyte
      obtain ⟨value, hread, hdatum⟩ := readValue_spelling item hskipped (isFenced_items items)
      obtain ⟨values, hreads, hdata⟩ := readItems_cons hstep hread
        fun {place} hplace => readItems_spelling items (p := place) hplace
      exact ⟨value :: values, hreads, by rw [Value.data, hdatum, hdata, ItemSpellings.data]⟩

theorem readMembers_spelling (members : MemberSpellings) {first : Bool} {p : Place}
    {rest : List UInt8} (hp : p.rest = Utf8.encode (members.chars first) ++ rest) :
    ∃ found, Yields (readMembers p first) found rest ∧ Value.memberData found = members.data := by
  match members with
  | .close blanks =>
      rw [MemberSpellings.chars, Utf8.encode_append, List.append_assoc] at hp
      exact ⟨[], readMembers_close hp (areBlank_encode blanks), rfl⟩
  | .part before after key beforeColon afterColon value members =>
      have hparts : p.rest = Utf8.encode (leadChars first before after) ++
          (Utf8.encode (textChars key) ++ (Utf8.encode beforeColon.chars ++
            ':'.toUInt8 :: (Utf8.encode afterColon.chars ++ (Utf8.encode value.chars ++
              (Utf8.encode (members.chars false) ++ rest))))) := by
        rw [hp, MemberSpellings.chars]
        simp only [Utf8.encode_append, Utf8.encode_cons, List.append_assoc]
        rfl
      obtain ⟨q, hstep, hq⟩ : ∃ q, Series.members.step first p = .ok (.part q) ∧
          q.rest = Utf8.encode (textChars key) ++ (Utf8.encode beforeColon.chars ++
            ':'.toUInt8 :: (Utf8.encode afterColon.chars ++ (Utf8.encode value.chars ++
              (Utf8.encode (members.chars false) ++ rest)))) :=
        step_lead hparts (by decide) (by decide) (by decide)
      obtain ⟨raw, hkey, hdecode⟩ := readText_pieces hq
      have hquote : q.next? = some '"' := by
        rw [Place.next?, hq]
        rfl
      obtain ⟨found, hmember, hdatum⟩ := readMember_of_parts hquote hkey
        (areBlank_encode beforeColon) fun {place} hplace => readValue_spelling value (p := place)
          (rest_skipBlanks_spelling hplace) (isFenced_members members)
      obtain ⟨others, hreads, hdata⟩ := readMembers_cons hstep hmember
        fun {place} hplace => readMembers_spelling members (p := place) hplace
      refine ⟨(raw, found) :: others, hreads, ?_⟩
      rw [Value.memberData, hdecode, hdatum, hdata, MemberSpellings.data]

end

/-- **Every text of a document is read, as a value that stands for what the document does.** -/
theorem read_document (document : Document) :
    ∃ value, read document.bytes = .ok value ∧ value.datum = document.datum := by
  let p : Place := ⟨document.bytes, 0⟩
  have hp : p.rest = Utf8.encode document.before.chars ++ (Utf8.encode document.value.chars ++
      Utf8.encode document.after.chars) := by
    simp [p, Document.bytes, Document.chars]
  obtain ⟨value, ⟨q, hq, hread, hrest⟩, hdatum⟩ := readValue_spelling document.value
    (rest_skipBlanks_spelling hp) (isFenced_encode document.after)
  have hblank : (Utf8.encode document.after.chars).takeWhile isBlank =
      Utf8.encode document.after.chars :=
    List.takeWhile_eq_self_iff.2 (areBlank_encode document.after)
  have hover : q.skipBlanks.rest = [] := by
    rw [Place.skipBlanks, Place.skipWhile, Place.drop, hrest, hblank, List.drop_length]
  refine ⟨value, ?_, hdatum⟩
  rw [read, hread]
  simp [hover]

end Json

end ComponentTags
