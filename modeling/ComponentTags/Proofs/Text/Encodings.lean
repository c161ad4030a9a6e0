import Mathlib.Tactic.SplitIfs
import ComponentTags.Source.Cursor
import ComponentTags.Text.Utf8

/-!
Encodings. The bytes that a text is written as are read as that text again, one character after another.
-/

namespace ComponentTags.Utf8

@[simp]
theorem encode_append (first second : List Char) :
    encode (first ++ second) = encode first ++ encode second :=
  List.flatMap_append

theorem encode_cons (ch : Char) (text : List Char) :
    encode (ch :: text) = String.utf8EncodeChar ch ++ encode text :=
  rfl

theorem length_encode (text : List Char) : (encode text).length = utf8Length text := by
  induction text with
  | nil => rfl
  | cons ch text ih =>
      rw [encode_cons, List.length_append, String.length_utf8EncodeChar, ih, utf8Length]

/-- A character of ASCII is one byte, its number. -/
theorem utf8EncodeChar_of_lt {ch : Char} (h : ch.toNat < 0x80) :
    String.utf8EncodeChar ch = [UInt8.ofNat ch.toNat] ∧
      Char.ofNat (UInt8.ofNat ch.toNat).toNat = ch := by
  constructor
  · rw [String.utf8EncodeChar]
    exact if_pos (by rw [Char.toNat] at h; omega)
  · rw [UInt8.toNat_ofNat', Nat.mod_eq_of_lt (by omega), Char.ofNat_toNat]

/-- A byte of a character is its number, or is none of ASCII. -/
theorem toNat_of_mem_utf8EncodeChar {ch : Char} {byte : UInt8}
    (h : byte ∈ String.utf8EncodeChar ch) : byte.toNat = ch.toNat ∨ 0x80 ≤ byte.toNat := by
  rw [Char.toNat]
  unfold String.utf8EncodeChar at h
  generalize ch.val.toNat = n at h ⊢
  dsimp only at h
  split_ifs at h <;> simp only [List.mem_cons, List.not_mem_nil, or_false] at h
  · rw [h, UInt8.toNat_ofNat']
    omega
  · rcases h with rfl | rfl <;> rw [UInt8.toNat_ofNat'] <;> omega
  · rcases h with rfl | rfl | rfl <;> rw [UInt8.toNat_ofNat'] <;> omega
  · rcases h with rfl | rfl | rfl | rfl <;> rw [UInt8.toNat_ofNat'] <;> omega

theorem toNat_continuation (n : Nat) : (UInt8.ofNat (n % 64 + 128)).toNat = n % 64 + 128 := by
  rw [UInt8.toNat_ofNat']
  omega

/-- A byte that continues a character adds its six bits to those read before. -/
theorem follow_continuation {low high : Nat} (following bits read n : Nat) (rest : List UInt8)
    (hlow : low ≤ n % 64 + 128) (hhigh : n % 64 + 128 ≤ high) :
    follow (following + 1) low high bits read (UInt8.ofNat (n % 64 + 128) :: rest) =
      follow following 0x80 0xbf (bits * 64 + n % 64) (read + 1) rest := by
  have hbits : (n % 64 + 128) % 64 = n % 64 := by omega
  rw [follow, toNat_continuation]
  simp [hlow, hhigh, hbits]

/-- **One character.** Its bytes are read as it is, and no byte after them. -/
theorem readChar_encoded (ch : Char) (rest : List UInt8) :
    ∃ byte bytes, String.utf8EncodeChar ch = byte :: bytes ∧
      readChar byte (bytes ++ rest) = (some ch, bytes.length + 1) := by
  have hchar : Char.ofNat ch.val.toNat = ch := Char.ofNat_toNat ch
  have hvalid : ch.val.toNat < 0xd800 ∨ 0xdfff < ch.val.toNat ∧ ch.val.toNat < 0x110000 := ch.valid
  unfold String.utf8EncodeChar
  generalize ch.val.toNat = n at hchar hvalid
  dsimp only
  split_ifs with hone htwo hthree
  · refine ⟨_, _, rfl, ?_⟩
    have hbyte : (UInt8.ofNat n).toNat = n := by rw [UInt8.toNat_ofNat']; omega
    rw [readChar, hbyte, lead?, if_pos (by omega)]
    simp [follow, hchar]
  · refine ⟨_, _, rfl, ?_⟩
    have hbyte : (UInt8.ofNat (n / 64 % 32 + 192)).toNat = n / 64 + 192 := by
      rw [UInt8.toNat_ofNat']
      omega
    have hcode : (n / 64 + 192) % 32 * 64 + n % 64 = n := by omega
    rw [readChar, hbyte, lead?, if_neg (by omega), if_neg (by omega), if_pos (by omega)]
    dsimp only
    rw [List.cons_append, follow_continuation 0 _ _ _ _ (by omega) (by omega), follow, hcode]
    simp [hchar]
  · refine ⟨_, _, rfl, ?_⟩
    have hbyte : (UInt8.ofNat (n / 4096 % 16 + 224)).toNat = n / 4096 + 224 := by
      rw [UInt8.toNat_ofNat']
      omega
    have hcode : ((n / 4096 + 224) % 16 * 64 + n / 64 % 64) * 64 + n % 64 = n := by omega
    rw [readChar, hbyte, lead?, if_neg (by omega), if_neg (by omega), if_neg (by omega),
      if_pos (by omega)]
    dsimp only
    rw [List.cons_append, follow_continuation 1 _ _ _ _ (by split <;> omega) (by split <;> omega),
      List.cons_append, follow_continuation 0 _ _ _ _ (by omega) (by omega), follow, hcode]
    simp [hchar]
  · refine ⟨_, _, rfl, ?_⟩
    have hbyte : (UInt8.ofNat (n / 262144 % 8 + 240)).toNat = n / 262144 + 240 := by
      rw [UInt8.toNat_ofNat']
      omega
    have hcode :
        (((n / 262144 + 240) % 8 * 64 + n / 4096 % 64) * 64 + n / 64 % 64) * 64 + n % 64 = n := by
      omega
    rw [readChar, hbyte, lead?, if_neg (by omega), if_neg (by omega), if_neg (by omega),
      if_neg (by omega), if_pos (by omega)]
    dsimp only
    rw [List.cons_append, follow_continuation 2 _ _ _ _ (by split <;> omega) (by split <;> omega),
      List.cons_append, follow_continuation 1 _ _ _ _ (by omega) (by omega),
      List.cons_append, follow_continuation 0 _ _ _ _ (by omega) (by omega), follow, hcode]
    simp [hchar]

theorem readChars_encode (text : List Char) : readChars (encode text) = text.map some := by
  induction text with
  | nil => rw [encode, List.flatMap_nil, readChars, List.map_nil]
  | cons ch text ih =>
      obtain ⟨byte, bytes, hencoded, hread⟩ := readChar_encoded ch (encode text)
      have hbytes : encode (ch :: text) = byte :: (bytes ++ encode text) := by
        rw [encode, List.flatMap_cons, hencoded]
        rfl
      rw [hbytes, readChars, hread, List.map_cons, Nat.add_sub_cancel, List.drop_left, ih]

/-- **A text is read as it was written.** -/
theorem decode?_encode (text : List Char) : decode? (encode text) = some text := by
  rw [decode?, readChars_encode]
  induction text with
  | nil => rfl
  | cons ch text ih => rw [List.map_cons, List.mapM_cons, ih]; rfl

theorem encode_injective {first second : List Char} (h : encode first = encode second) :
    first = second := by
  have hdecoded := congrArg decode? h
  rw [decode?_encode, decode?_encode] at hdecoded
  exact Option.some.inj hdecoded

end ComponentTags.Utf8
