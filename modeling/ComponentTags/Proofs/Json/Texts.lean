import ComponentTags.Json.Decoding
import ComponentTags.Proofs.Text.Encodings

/-!
Texts in JSON documents. A text that is written with its quotes and escapes is read up to its closing
quote, and stands for the text that it was.
-/

namespace ComponentTags

namespace Json

theorem toNat_sign (byte : UInt8) : (sign byte).toNat = byte.toNat := by
  have hlt := byte.toNat_lt
  rw [sign, Char.ofNat, dif_pos (.inl (by omega))]
  rfl

/-- A byte that stands for itself between two quotes. -/
structure IsOpenByte (byte : UInt8) : Prop where
  quote : sign byte ≠ '"'
  slash : sign byte ≠ '\\'
  control : ¬byte.toNat < 0x20

theorem isOpenByte_of_mem {ch : Char} {byte : UInt8} (h : byte ∈ String.utf8EncodeChar ch)
    (hquote : ch ≠ '"') (hslash : ch ≠ '\\') (hcontrol : ¬ch.toNat < 0x20) : IsOpenByte byte := by
  have hne : ∀ {other : Char}, other.toNat < 0x80 → ch ≠ other → sign byte ≠ other := by
    rintro other hascii hother rfl
    rw [toNat_sign] at hascii
    rcases Utf8.toNat_of_mem_utf8EncodeChar h with hsame | hbeyond
    · exact hother (Char.toNat_inj.1 (by rw [toNat_sign, hsame]))
    · omega
  refine ⟨hne (by decide) hquote, hne (by decide) hslash, ?_⟩
  rcases Utf8.toNat_of_mem_utf8EncodeChar h with hsame | hbeyond <;> omega

theorem scanText_cons {byte : UInt8} (h : IsOpenByte byte) (done : List UInt8) (offset : Nat)
    (rest : List UInt8) :
    scanText done offset (byte :: rest) = scanText (byte :: done) (offset + 1) rest := by
  rw [scanText.eq_def]
  dsimp only
  rw [if_neg h.quote, if_neg h.slash, if_neg h.control]

theorem unescape_cons {byte : UInt8} (h : IsOpenByte byte) (rest : List UInt8) :
    unescape (byte :: rest) = (unescape rest).map (byte :: ·) := by
  rw [unescape, if_neg h.slash]

theorem scanText_append {bytes : List UInt8} (h : ∀ byte ∈ bytes, IsOpenByte byte)
    (done : List UInt8) (offset : Nat) (rest : List UInt8) :
    scanText done offset (bytes ++ rest) =
      scanText (bytes.reverse ++ done) (offset + bytes.length) rest := by
  induction bytes generalizing done offset with
  | nil => rfl
  | cons byte bytes ih =>
      obtain ⟨hbyte, hbytes⟩ := List.forall_mem_cons.1 h
      rw [List.cons_append, scanText_cons hbyte, ih hbytes]
      simp [Nat.add_assoc, Nat.add_comm 1]

theorem unescape_append {bytes : List UInt8} (h : ∀ byte ∈ bytes, IsOpenByte byte)
    (rest : List UInt8) : unescape (bytes ++ rest) = (unescape rest).map (bytes ++ ·) := by
  induction bytes with
  | nil =>
      rw [List.nil_append]
      cases unescape rest <;> rfl
  | cons byte bytes ih =>
      obtain ⟨hbyte, hbytes⟩ := List.forall_mem_cons.1 h
      rw [List.cons_append, unescape_cons hbyte, ih hbytes]
      cases unescape rest <;> rfl

/-! ### What is escaped -/

/-- Bytes that stand for others in a text, on their own. -/
structure EscapesTo (bytes found : List UInt8) : Prop where
  scanned : ∀ done offset rest, scanText done offset (bytes ++ rest) =
    scanText (bytes.reverse ++ done) (offset + bytes.length) rest
  unescaped : ∀ rest, unescape (bytes ++ rest) = (unescape rest).map (found ++ ·)

theorem escapesTo_of_open {bytes : List UInt8} (h : ∀ byte ∈ bytes, IsOpenByte byte) :
    EscapesTo bytes bytes where
  scanned := scanText_append h
  unescaped := unescape_append h

theorem unescape_slash {bytes found after : List UInt8}
    (h : readEscape bytes = .ok (found, after)) :
    unescape ('\\'.toUInt8 :: bytes) = (unescape after).map (found ++ ·) := by
  rw [unescape, if_pos (by decide)]
  split
  · next problem herror =>
      rw [h] at herror
      cases herror
  · next found' after' hok =>
      rw [h] at hok
      cases hok
      rfl

theorem unescape_slash_error {bytes : List UInt8} {problem : Problem}
    (h : readEscape bytes = .error problem) :
    unescape ('\\'.toUInt8 :: bytes) = .error problem := by
  rw [unescape, if_pos (by decide)]
  split
  · next problem' herror =>
      rw [h] at herror
      cases herror
      rfl
  · next found after hok =>
      rw [h] at hok
      cases hok

theorem escapesTo_short {byte : UInt8}
    (h : ['"', '\\', '/', 'b', 'f', 'n', 'r', 't'].contains (sign byte) = true) :
    EscapesTo ['\\'.toUInt8, byte] [shortEscape byte] := by
  have hplain : sign byte ≠ 'u' := by
    intro hu
    rw [hu] at h
    exact absurd h (by decide)
  constructor
  · intro done offset rest
    rw [List.cons_append, List.cons_append, scanText.eq_def]
    dsimp only
    rw [if_neg (by decide), if_pos (by decide), if_neg hplain, if_pos h]
    rfl
  · intro rest
    apply unescape_slash
    show readEscape (byte :: rest) = _
    rw [readEscape.eq_def]
    exact if_neg hplain

/-- An escape of four digits is read on its own, whatever it stands for. -/
theorem scanText_long {a b c d : UInt8}
    (hdigits : ([a, b, c, d].all fun digit => (sign digit).isHexDigit) = true) (done : List UInt8)
    (offset : Nat) (rest : List UInt8) :
    scanText done offset ('\\'.toUInt8 :: 'u'.toUInt8 :: a :: b :: c :: d :: rest) =
      scanText (d :: c :: b :: a :: 'u'.toUInt8 :: '\\'.toUInt8 :: done) (offset + 6) rest := by
  rw [scanText.eq_def]
  dsimp only
  rw [if_neg (by decide), if_pos (by decide), if_pos (by decide), if_pos hdigits]

theorem escapesTo_long {a b c d : UInt8}
    (hdigits : ([a, b, c, d].all fun digit => (sign digit).isHexDigit) = true)
    (hwhole : hexValue [a, b, c, d] < 0xd800) :
    EscapesTo ['\\'.toUInt8, 'u'.toUInt8, a, b, c, d]
      (Utf8.encode [Char.ofNat (hexValue [a, b, c, d])]) := by
  constructor
  · exact scanText_long hdigits
  · intro rest
    have hlow : isLowHalf (hexValue [a, b, c, d]) = false := by
      simp [isLowHalf]
      omega
    have hhigh : isHighHalf (hexValue [a, b, c, d]) = false := by
      simp [isHighHalf]
      omega
    apply unescape_slash
    show readEscape ('u'.toUInt8 :: a :: b :: c :: d :: rest) = _
    rw [readEscape.eq_def]
    dsimp only [readCode]
    rw [if_pos (by decide), hlow, hhigh]
    rfl

theorem hexValue_control : ∀ n < 0x20,
    (Utf8.encode ['0', '0', Quoted.hexDigit (n / 16), Quoted.hexDigit (n % 16)]).length = 4 ∧
      ((Utf8.encode ['0', '0', Quoted.hexDigit (n / 16), Quoted.hexDigit (n % 16)]).all
        fun digit => (sign digit).isHexDigit) = true ∧
      hexValue (Utf8.encode ['0', '0', Quoted.hexDigit (n / 16), Quoted.hexDigit (n % 16)]) = n := by
  decide

theorem escapesTo_control {ch : Char} (h : ch.toNat < 0x20) :
    EscapesTo (Utf8.encode ['\\', 'u', '0', '0', Quoted.hexDigit (ch.toNat / 16),
      Quoted.hexDigit (ch.toNat % 16)]) (String.utf8EncodeChar ch) := by
  obtain ⟨hlength, hdigits, hvalue⟩ := hexValue_control ch.toNat h
  have hbytes : Utf8.encode ['\\', 'u', '0', '0', Quoted.hexDigit (ch.toNat / 16),
      Quoted.hexDigit (ch.toNat % 16)] = '\\'.toUInt8 :: 'u'.toUInt8 ::
        Utf8.encode ['0', '0', Quoted.hexDigit (ch.toNat / 16), Quoted.hexDigit (ch.toNat % 16)] :=
    rfl
  rw [hbytes]
  generalize Utf8.encode ['0', '0', Quoted.hexDigit (ch.toNat / 16),
    Quoted.hexDigit (ch.toNat % 16)] = digits at hlength hdigits hvalue ⊢
  match digits, hlength with
  | [a, b, c, d], _ =>
      have hescape := escapesTo_long hdigits (by omega)
      rw [hvalue, Char.ofNat_toNat] at hescape
      simpa [Utf8.encode] using hescape

/-- **One character** of a text that is written between quotes. -/
theorem escapesTo_encodeChar (ch : Char) :
    EscapesTo (Utf8.encode (Quoted.encodeChar ch)) (String.utf8EncodeChar ch) := by
  unfold Quoted.encodeChar
  split_ifs with hquote hslash hback htab hfeed hpage hreturn hcontrol
  · subst hquote
    exact escapesTo_short (by decide)
  · subst hslash
    exact escapesTo_short (by decide)
  · subst hback
    exact escapesTo_short (by decide)
  · subst htab
    exact escapesTo_short (by decide)
  · subst hfeed
    exact escapesTo_short (by decide)
  · subst hpage
    exact escapesTo_short (by decide)
  · subst hreturn
    exact escapesTo_short (by decide)
  · exact escapesTo_control hcontrol
  · have hbytes : Utf8.encode [ch] = String.utf8EncodeChar ch := by simp [Utf8.encode]
    rw [hbytes]
    exact escapesTo_of_open fun byte hbyte => isOpenByte_of_mem hbyte hquote hslash hcontrol

theorem EscapesTo.append {bytes found more others : List UInt8} (h : EscapesTo bytes found)
    (h' : EscapesTo more others) : EscapesTo (bytes ++ more) (found ++ others) where
  scanned done offset rest := by
    rw [List.append_assoc, h.scanned, h'.scanned]
    simp [Nat.add_assoc]
  unescaped rest := by
    rw [List.append_assoc, h.unescaped, h'.unescaped]
    cases unescape rest with
    | error problem => rfl
    | ok bytes => simp [Except.map]

theorem escapesTo_encode (text : List Char) :
    EscapesTo (Utf8.encode (text.flatMap Quoted.encodeChar)) (Utf8.encode text) := by
  induction text with
  | nil => exact escapesTo_of_open nofun
  | cons ch text ih =>
      have hbytes : Utf8.encode ((ch :: text).flatMap Quoted.encodeChar) =
          Utf8.encode (Quoted.encodeChar ch) ++ Utf8.encode (text.flatMap Quoted.encodeChar) := by
        simp [Utf8.encode]
      rw [hbytes]
      exact (escapesTo_encodeChar ch).append ih

/-- A reader gives a value and goes on before some bytes. -/
def Yields {p : Place} {α : Type} (result : Except Fault (Past p α)) (value : α)
    (rest : List UInt8) : Prop :=
  ∃ q h, result = .ok ⟨(value, q), h⟩ ∧ q.rest = rest

/-- **A text is read up to its closing quote**, where none of its parts is taken for that. -/
theorem readText_of_scan {p : Place} {bytes rest : List UInt8}
    (hp : p.rest = '"'.toUInt8 :: (bytes ++ '"'.toUInt8 :: rest))
    (hscan : ∀ done offset rest, scanText done offset (bytes ++ rest) =
      scanText (bytes.reverse ++ done) (offset + bytes.length) rest) :
    ∃ raw, Yields (readText p) raw rest ∧ raw.bytes = bytes := by
  have hwhole : scanText [] (p.offset + 1) (p.rest.drop 1) =
      .ok (bytes, ⟨rest, p.offset + 1 + bytes.length + 1⟩) := by
    rw [hp, List.drop_one, List.tail_cons, hscan, scanText.eq_def]
    dsimp only
    rw [if_pos (by decide), List.append_nil, List.reverse_reverse]
  let after : Place := ⟨rest, p.offset + 1 + bytes.length + 1⟩
  refine ⟨⟨bytes, p.upTo after⟩, ⟨after, ?_, ?_, rfl⟩, rfl⟩
  · calc after.left < (p.rest.drop 1).length := left_lt_of_scanText hwhole
      _ ≤ p.left := (List.drop_sublist 1 p.rest).length_le
  · unfold readText
    split
    · next fault herror =>
        rw [hwhole] at herror
        cases herror
    · next found q hok =>
        rw [hwhole] at hok
        cases hok
        rfl

/-- **A text that is written between quotes is read as it was**, up to its closing quote. -/
theorem readText_encode {p : Place} {text : String} {rest : List UInt8}
    (hp : p.rest = Utf8.encode (Quoted.encodeChars text.toList) ++ rest) :
    ∃ raw, Yields (readText p) raw rest ∧ raw.decode = .ok text := by
  let bytes := Utf8.encode (text.toList.flatMap Quoted.encodeChar)
  have hescapes : EscapesTo bytes (Utf8.encode text.toList) := escapesTo_encode text.toList
  have hquoted : p.rest = '"'.toUInt8 :: (bytes ++ '"'.toUInt8 :: rest) := by
    rw [hp, Quoted.encodeChars, Utf8.encode, List.flatMap_append, List.flatMap_cons]
    simp [bytes, Utf8.encode]
    rfl
  have hdecode : unescape bytes = .ok (Utf8.encode text.toList) := by
    have hwhole := hescapes.unescaped []
    rw [unescape] at hwhole
    simpa [Except.map] using hwhole
  obtain ⟨raw, hread, hraw⟩ := readText_of_scan hquoted hescapes.scanned
  refine ⟨raw, hread, ?_⟩
  rw [RawText.decode, hraw, hdecode]
  dsimp only
  rw [Utf8.decode?_encode]
  simp

end Json

end ComponentTags
