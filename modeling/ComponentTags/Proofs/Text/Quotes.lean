import Mathlib.Tactic.SplitIfs
import ComponentTags.Text.Quoted

/-!
The characters of quoted texts. A character is written as itself, or as a backslash with a letter and
perhaps some digits behind it.
-/

namespace ComponentTags.Quoted

/-- The letters that stand behind a backslash. -/
def escapeLetters : List Char :=
  ['"', '\\', 'b', 't', 'n', 'f', 'r', 'u']

def hexDigits : List Char :=
  "0123456789abcdef".toList

/-- How a character of a text is written. -/
inductive Encodes : Char → List Char → Prop where
  | itself {ch : Char} (hquote : ch ≠ '"') (hslash : ch ≠ '\\') (hcontrol : ¬ch.toNat < 0x20) :
      Encodes ch [ch]
  | escape {ch letter : Char} {digits : List Char}
      (hch : ch = '"' ∨ ch = '\\' ∨ ch.toNat < 0x20) (hletter : letter ∈ escapeLetters)
      (hdigits : ∀ digit ∈ digits, digit ∈ hexDigits) :
      Encodes ch ('\\' :: letter :: digits)

theorem hexDigit_mem {n : Nat} (h : n < 16) : hexDigit n ∈ hexDigits := by
  have hall : ∀ i : Fin 16, hexDigit i ∈ hexDigits := by decide +kernel
  exact hall ⟨n, h⟩

theorem encodes_encodeChar (ch : Char) : Encodes ch (encodeChar ch) := by
  have hshort : ∀ {letter : Char}, (ch = '"' ∨ ch = '\\' ∨ ch.toNat < 0x20) →
      letter ∈ escapeLetters → Encodes ch ['\\', letter] :=
    fun hch hletter => .escape hch hletter nofun
  unfold encodeChar
  split_ifs with hquote hslash hback htab hbreak hfeed hreturn hcontrol
  · exact hshort (.inl hquote) (by decide)
  · exact hshort (.inr (.inl hslash)) (by decide)
  · exact hshort (.inr (.inr (by rw [hback]; decide))) (by decide)
  · exact hshort (.inr (.inr (by rw [htab]; decide))) (by decide)
  · exact hshort (.inr (.inr (by rw [hbreak]; decide))) (by decide)
  · exact hshort (.inr (.inr (by rw [hfeed]; decide))) (by decide)
  · exact hshort (.inr (.inr (by rw [hreturn]; decide))) (by decide)
  · refine .escape (.inr (.inr hcontrol)) (by decide) ?_
    have hzero : '0' ∈ hexDigits := hexDigit_mem (n := 0) (by decide)
    simp only [List.forall_mem_cons]
    exact ⟨hzero, hzero, hexDigit_mem (by omega), hexDigit_mem (by omega), nofun⟩
  · exact .itself hquote hslash hcontrol

end ComponentTags.Quoted
