import Mathlib.Algebra.Order.Field.Power
import Mathlib.Data.Rat.Cast.Order
import Mathlib.Tactic.Linarith
import Mathlib.Tactic.Positivity
import Mathlib.Tactic.Ring
import ComponentTags.Proofs.Json.GrammarReading

/-!
Ranges. A number is computed from its leading digits, and rounded three times on the way. What is too
large then is no more than three roundings too small for it.
-/

namespace ComponentTags.Json

/-! ### The size of a number -/

def Exponent.number (exponent : Exponent) : Int :=
  if exponent.sign = ['-'] then -digitsNumber exponent.digits.chars
  else digitsNumber exponent.digits.chars

namespace Numeral

def fractionDigits (numeral : Numeral) : List Char :=
  numeral.fraction.elim [] Digits.chars

def scale (numeral : Numeral) : Int :=
  numeral.exponent.elim 0 Exponent.number

/-- The number without its sign. -/
def magnitude (numeral : Numeral) : ℚ :=
  digitsNumber (numeral.whole.chars ++ numeral.fractionDigits) *
    10 ^ (numeral.scale - numeral.fractionDigits.length)

end Numeral

/-! ### Roundings -/

/-- A rest can only be left where the bits of a number are more than 53. -/
theorem unit_le {n unit : Nat} (hunit : 2 ^ (n.log2 + 1 - 53) = unit) (hrest : n % unit ≠ 0) :
    unit * 2 ^ 52 ≤ n := by
  have hbits : 52 < n.log2 := by
    by_contra hfew
    have hone : unit = 1 := by
      rw [← hunit, show n.log2 + 1 - 53 = 0 by omega, pow_zero]
    rw [hone, Nat.mod_one] at hrest
    exact hrest rfl
  calc unit * 2 ^ 52 = 2 ^ n.log2 := by
        rw [← hunit, ← pow_add]
        congr 1
        omega
    _ ≤ n := Nat.log2_self_le (by rintro rfl; simp at hbits)

/-- Rounding adds at most half of the last of 53 bits. -/
theorem nearestDouble_le (n : Nat) : nearestDouble n * 2 ^ 53 ≤ n * (2 ^ 53 + 1) := by
  unfold nearestDouble
  dsimp only
  generalize hpow : Nat.pow 2 (n.log2 + 1 - 53) = unit
  have hunit : 2 ^ (n.log2 + 1 - 53) = unit := hpow
  have hparts : unit * (n / unit) + n % unit = n := Nat.div_add_mod n unit
  have hpos : 0 < unit := by
    rw [← hunit]
    positivity
  split
  · next hup =>
      have hhalf : unit ≤ 2 * (n % unit) := by
        simp only [Bool.or_eq_true, Bool.and_eq_true, decide_eq_true_eq] at hup
        omega
      have hrounded : 2 * ((n / unit + 1) * unit) ≤ 2 * n + unit := by
        rw [Nat.add_mul, Nat.mul_comm (n / unit)]
        omega
      calc (n / unit + 1) * unit * 2 ^ 53 = 2 * ((n / unit + 1) * unit) * 2 ^ 52 := by ring
        _ ≤ (2 * n + unit) * 2 ^ 52 := Nat.mul_le_mul_right _ hrounded
        _ = n * 2 ^ 53 + unit * 2 ^ 52 := by ring
        _ ≤ n * 2 ^ 53 + n := Nat.add_le_add_left (unit_le hunit (by omega)) _
        _ = n * (2 ^ 53 + 1) := by ring
  · next hdown =>
      calc n / unit * unit * 2 ^ 53 ≤ n * 2 ^ 53 :=
            Nat.mul_le_mul_right _ (Nat.div_mul_le_self n unit)
        _ ≤ n * (2 ^ 53 + 1) := Nat.mul_le_mul_left _ (Nat.le_succ _)

/-- Two numbers are rounded, and then their product is. -/
theorem nearestDouble_mul_lt {m n bound : Nat} (h : m * n * (2 ^ 53 + 1) ^ 3 < bound * 2 ^ 159) :
    nearestDouble (nearestDouble m * nearestDouble n) < bound := by
  have hle : nearestDouble (nearestDouble m * nearestDouble n) * 2 ^ 159 ≤
      m * n * (2 ^ 53 + 1) ^ 3 :=
    calc nearestDouble (nearestDouble m * nearestDouble n) * 2 ^ 159
        = nearestDouble (nearestDouble m * nearestDouble n) * 2 ^ 53 * (2 ^ 53 * 2 ^ 53) := by ring
      _ ≤ nearestDouble m * nearestDouble n * (2 ^ 53 + 1) * (2 ^ 53 * 2 ^ 53) :=
          Nat.mul_le_mul_right _ (nearestDouble_le _)
      _ = nearestDouble m * 2 ^ 53 * (nearestDouble n * 2 ^ 53) * (2 ^ 53 + 1) := by ring
      _ ≤ m * (2 ^ 53 + 1) * (n * (2 ^ 53 + 1)) * (2 ^ 53 + 1) :=
          Nat.mul_le_mul_right _ (Nat.mul_le_mul (nearestDouble_le m) (nearestDouble_le n))
      _ = m * n * (2 ^ 53 + 1) ^ 3 := by ring
  exact Nat.lt_of_mul_lt_mul_right (Nat.lt_of_le_of_lt hle h)

theorem le_sub_of_cast {m n k : Nat} (h : (k : ℚ) ≤ m - n) : k ≤ m - n := by
  have hsum : (k + n : ℚ) ≤ m := by linarith
  exact Nat.le_sub_of_add_le (by exact_mod_cast hsum)

/-! ### Leading digits -/

theorem le_foldl_digits (digits : List Char) (value : Nat) :
    value * 10 ^ digits.length ≤
      digits.foldl (fun n digit => 10 * n + (digit.toNat - '0'.toNat)) value := by
  induction digits generalizing value with
  | nil => simp
  | cons digit digits ih =>
      calc value * 10 ^ (digits.length + 1) = 10 * value * 10 ^ digits.length := by ring
        _ ≤ (10 * value + (digit.toNat - '0'.toNat)) * 10 ^ digits.length :=
            Nat.mul_le_mul_right _ (Nat.le_add_right _ _)
        _ ≤ _ := ih _

/-- The leading digits, with zeros for all that were left out, spell no more than all do. -/
theorem leadingDigits_le (digits : List Char) (value used : Nat) :
    (leadingDigits value used digits).2 ≤ used + digits.length ∧
      (leadingDigits value used digits).1 *
          10 ^ (used + digits.length - (leadingDigits value used digits).2) ≤
        digits.foldl (fun n digit => 10 * n + (digit.toNat - '0'.toNat)) value := by
  induction digits generalizing value used with
  | nil => simp [leadingDigits]
  | cons digit digits ih =>
      rw [leadingDigits]
      split
      · obtain ⟨hused, hle⟩ := ih (10 * value + (digit.toNat - '0'.toNat)) (used + 1)
        have hlength : used + (digit :: digits).length = used + 1 + digits.length := by
          rw [List.length_cons]
          omega
        rw [hlength]
        exact ⟨hused, hle⟩
      · refine ⟨Nat.le_add_right _ _, ?_⟩
        rw [Nat.add_sub_cancel_left]
        exact le_foldl_digits (digit :: digits) value

/-! ### Spelled numbers -/

/-- What is taken from a text ends where its front does. -/
theorem while_append {accept : Char → Bool} {front rest : List Char}
    (hfront : ∀ ch ∈ front, accept ch = true) (hrest : ∀ ch ∈ rest.head?, accept ch = false) :
    (front ++ rest).takeWhile accept = front ∧ (front ++ rest).dropWhile accept = rest := by
  rw [List.takeWhile_append_of_pos hfront, List.dropWhile_append_of_pos hfront]
  cases rest with
  | nil => exact ⟨List.append_nil _, rfl⟩
  | cons ch rest => simp [hrest ch rfl]

theorem ne_of_isDigit {ch other : Char} (h : ch.isDigit = true) (hother : other.isDigit = false) :
    ch ≠ other := by
  rintro rfl
  exact Bool.false_ne_true (hother.symm.trans h)

theorem ne_mark_of_isDigit {ch : Char} (h : ch.isDigit = true) :
    (decide (ch ≠ 'e') && decide (ch ≠ 'E')) = true := by
  have hsmall : ch ≠ 'e' := ne_of_isDigit h rfl
  have hcapital : ch ≠ 'E' := ne_of_isDigit h rfl
  simp [hsmall, hcapital]

theorem Digits.lt_of_mem (digits : Digits) : ∀ ch ∈ digits.chars, ch.toNat < 0x80 :=
  fun ch hch => lt_of_isDigit (digits.areDigits ch hch)

theorem Exponent.lt_of_mem (exponent : Exponent) : ∀ ch ∈ exponent.chars, ch.toNat < 0x80 := by
  intro ch hch
  simp only [Exponent.chars, List.mem_cons, List.mem_append] at hch
  rcases hch with rfl | hsign | hdigits
  · exact exponent.toNat_mark_lt
  · rcases exponent.isSign with h | h | h <;> rw [h] at hsign
    · cases hsign
    · rw [List.mem_singleton.1 hsign]
      decide
    · rw [List.mem_singleton.1 hsign]
      decide
  · exact exponent.digits.lt_of_mem ch hdigits

theorem exponentNumber_chars (exponent : Exponent) :
    exponentNumber exponent.chars = exponent.number := by
  unfold Exponent.chars Exponent.number
  rcases exponent.isSign with h | h | h
  · have hdigits : ∀ ch ∈ exponent.digits.chars.head?, ch ≠ '-' ∧ ch ≠ '+' := by
      intro ch hch
      have hdigit := exponent.digits.areDigits ch (List.mem_of_mem_head? hch)
      exact ⟨ne_of_isDigit hdigit rfl, ne_of_isDigit hdigit rfl⟩
    rw [h, if_neg (by decide), List.nil_append]
    generalize exponent.digits.chars = digits at hdigits
    unfold exponentNumber
    split
    · next heq =>
        cases heq
        exact absurd rfl (hdigits _ rfl).1
    · next heq =>
        cases heq
        exact absurd rfl (hdigits _ rfl).2
    · next heq => cases heq; rfl
    · next heq => cases heq
  · rw [h]
    rfl
  · rw [h]
    rfl

namespace Numeral

variable (numeral : Numeral)

def leading : Nat × Nat :=
  leadingDigits 0 0 (numeral.whole.chars ++ numeral.fractionDigits)

/-- The power of ten that the leading digits are multiplied by. -/
def leadingScale : Int :=
  numeral.scale + numeral.whole.chars.length - numeral.leading.2

theorem lt_of_mem_chars : ∀ ch ∈ numeral.chars, ch.toNat < 0x80 := by
  intro ch hch
  simp only [chars, List.mem_append] at hch
  rcases hch with hsign | hwhole | hfraction | hexponent
  · unfold signChars at hsign
    split at hsign
    · rw [List.mem_singleton.1 hsign]
      decide
    · cases hsign
  · exact numeral.whole.lt_of_mem ch hwhole
  · unfold fractionChars at hfraction
    cases hparts : numeral.fraction with
    | none =>
        rw [hparts] at hfraction
        cases hfraction
    | some digits =>
        rw [hparts] at hfraction
        rcases List.mem_cons.1 hfraction with rfl | hmem
        · decide
        · exact digits.lt_of_mem ch hmem
  · unfold exponentChars at hexponent
    cases hparts : numeral.exponent with
    | none =>
        rw [hparts] at hexponent
        cases hexponent
    | some exponent =>
        rw [hparts] at hexponent
        exact exponent.lt_of_mem ch hexponent

theorem head_exponentChars : ∀ ch ∈ numeral.exponentChars.head?, ch.isDigit = false ∧ ch ≠ '.' ∧
    (decide (ch ≠ 'e') && decide (ch ≠ 'E')) = false := by
  unfold exponentChars
  cases numeral.exponent with
  | none => exact fun ch hch => absurd hch (Option.not_mem_none ch)
  | some exponent =>
      intro ch hch
      obtain rfl : exponent.mark = ch := Option.some.inj hch
      rcases exponent.isMark with h | h <;> rw [h] <;> decide

theorem head_tail : ∀ ch ∈ (numeral.fractionChars ++ numeral.exponentChars).head?,
    ch.isDigit = false := by
  unfold fractionChars
  cases numeral.fraction with
  | none => exact fun ch hch => (numeral.head_exponentChars ch hch).1
  | some digits =>
      intro ch hch
      obtain rfl : '.' = ch := Option.some.inj hch
      rfl

theorem map_sign_chars : (Utf8.encode numeral.chars).map sign = numeral.chars := by
  rw [Utf8.encode_ascii numeral.lt_of_mem_chars, List.map_map]
  calc numeral.chars.map (sign ∘ fun ch => UInt8.ofNat ch.toNat) = numeral.chars.map id :=
        List.map_congr_left fun ch hch => sign_ofNat (numeral.lt_of_mem_chars ch hch)
    _ = numeral.chars := List.map_id _

/-- Without its sign, a number begins with its whole part. -/
theorem dropWhile_signChars : numeral.chars.dropWhile (· = '-') =
    numeral.whole.chars ++ (numeral.fractionChars ++ numeral.exponentChars) := by
  refine (while_append ?_ ?_).2
  · intro ch hch
    unfold signChars at hch
    split at hch
    · rw [List.mem_singleton.1 hch]
      rfl
    · cases hch
  · intro ch hch
    rw [List.head?_append_of_ne_nil _ numeral.whole.nonempty] at hch
    have hdigit := numeral.whole.areDigits ch (List.mem_of_mem_head? hch)
    have hne : ch ≠ '-' := ne_of_isDigit hdigit rfl
    simp [hne]

theorem takeWhile_fraction :
    let tail := numeral.fractionChars ++ numeral.exponentChars
    (if tail.head? = some '.' then (tail.drop 1).takeWhile Char.isDigit else []) =
      numeral.fractionDigits := by
  have hexponent := numeral.head_exponentChars
  unfold fractionChars fractionDigits
  cases numeral.fraction with
  | none =>
      have hhead : numeral.exponentChars.head? ≠ some '.' := fun h => (hexponent '.' h).2.1 rfl
      exact if_neg hhead
  | some digits =>
      have hhead : (('.' :: digits.chars) ++ numeral.exponentChars).head? = some '.' := rfl
      refine (if_pos hhead).trans ?_
      exact (while_append digits.areDigits fun ch hch => (hexponent ch hch).1).1

theorem dropWhile_fraction : (numeral.fractionChars ++ numeral.exponentChars).dropWhile
    (fun ch => ch ≠ 'e' && ch ≠ 'E') = numeral.exponentChars := by
  refine (while_append ?_ fun ch hch => (numeral.head_exponentChars ch hch).2.2).2
  intro ch hch
  unfold fractionChars at hch
  cases hfraction : numeral.fraction with
  | none =>
      rw [hfraction] at hch
      cases hch
  | some digits =>
      rw [hfraction] at hch
      rcases List.mem_cons.1 hch with rfl | hmem
      · rfl
      · exact ne_mark_of_isDigit (digits.areDigits ch hmem)

theorem exponentNumber_eq : exponentNumber numeral.exponentChars = numeral.scale := by
  unfold exponentChars scale
  cases numeral.exponent with
  | none => rfl
  | some exponent => exact exponentNumber_chars exponent

/-- **How a number is computed**: its leading digits and a power of ten, rounded, and their product. -/
theorem isOutOfRange_chars : isOutOfRange (Utf8.encode numeral.chars) =
    (numeral.leading.1 ≠ 0 && 0 ≤ numeral.leadingScale && (308 < numeral.leadingScale ||
      Nat.pow 2 1024 ≤ nearestDouble (nearestDouble numeral.leading.1 *
        nearestDouble (Nat.pow 10 numeral.leadingScale.toNat)))) := by
  obtain ⟨hwhole, htail⟩ := while_append numeral.whole.areDigits numeral.head_tail
  unfold isOutOfRange
  dsimp only
  rw [map_sign_chars, dropWhile_signChars, hwhole, htail, takeWhile_fraction, dropWhile_fraction,
    exponentNumber_eq]
  rfl

/-- What is computed lies no further out than the number itself. -/
theorem leading_le (h : 0 ≤ numeral.leadingScale) :
    ((numeral.leading.1 * 10 ^ numeral.leadingScale.toNat : ℕ) : ℚ) ≤ numeral.magnitude := by
  obtain ⟨hused, hle⟩ := leadingDigits_le (numeral.whole.chars ++ numeral.fractionDigits) 0 0
  rw [Nat.zero_add, ← leading] at hused hle
  have hlength : (numeral.whole.chars ++ numeral.fractionDigits).length =
      numeral.whole.chars.length + numeral.fractionDigits.length := List.length_append
  have hscale : numeral.leadingScale =
      (((numeral.whole.chars ++ numeral.fractionDigits).length - numeral.leading.2 : ℕ) : ℤ) +
        (numeral.scale - numeral.fractionDigits.length) := by
    rw [leadingScale, Nat.cast_sub hused, hlength]
    push_cast
    ring
  have hcast : (numeral.leading.1 : ℚ) *
      10 ^ ((numeral.whole.chars ++ numeral.fractionDigits).length - numeral.leading.2) ≤
        digitsNumber (numeral.whole.chars ++ numeral.fractionDigits) := by
    exact_mod_cast hle
  calc ((numeral.leading.1 * 10 ^ numeral.leadingScale.toNat : ℕ) : ℚ)
      = numeral.leading.1 * 10 ^ numeral.leadingScale := by
        rw [Nat.cast_mul, Nat.cast_pow, ← zpow_natCast, Int.toNat_of_nonneg h, Nat.cast_ofNat]
    _ = numeral.leading.1 *
          10 ^ ((numeral.whole.chars ++ numeral.fractionDigits).length - numeral.leading.2) *
            10 ^ (numeral.scale - numeral.fractionDigits.length) := by
        rw [hscale, zpow_add₀ (by norm_num), zpow_natCast, mul_assoc]
    _ ≤ numeral.magnitude := mul_le_mul_of_nonneg_right hcast (by positivity)

/--
**A number is in range if it lies four steps of double precision below the power of two** that is the
first number out of range.
-/
theorem isOutOfRange_eq_false (h : numeral.magnitude ≤ 2 ^ 1024 - 2 ^ 973) :
    isOutOfRange (Utf8.encode numeral.chars) = false := by
  rw [isOutOfRange_chars]
  by_cases hdigits : numeral.leading.1 = 0
  · simp only [hdigits, ne_eq, not_true_eq_false, decide_false, Bool.false_and]
  by_cases hscale : 0 ≤ numeral.leadingScale
  · have hsmall : numeral.leading.1 * 10 ^ numeral.leadingScale.toNat ≤ 2 ^ 1024 - 2 ^ 973 := by
      refine le_sub_of_cast ?_
      rw [Nat.cast_pow, Nat.cast_pow, Nat.cast_ofNat]
      exact (numeral.leading_le hscale).trans h
    -- a larger power would lie out of range on its own
    have hpower : numeral.leadingScale ≤ 308 := by
      have hfactor : 10 ^ numeral.leadingScale.toNat ≤ 2 ^ 1024 - 2 ^ 973 :=
        (Nat.le_mul_of_pos_left _ (Nat.pos_of_ne_zero hdigits)).trans hsmall
      have hover : 2 ^ 1024 - 2 ^ 973 < 10 ^ 309 := by decide +kernel
      have hexponent : numeral.leadingScale.toNat < 309 :=
        (pow_lt_pow_iff_right₀ (by decide)).1 (Nat.lt_of_le_of_lt hfactor hover)
      exact Int.toNat_le.1 (Nat.le_of_lt_succ hexponent)
    have hroom : (2 ^ 1024 - 2 ^ 973) * (2 ^ 53 + 1) ^ 3 < Nat.pow 2 1024 * 2 ^ 159 := by
      decide +kernel
    have hfits : ¬Nat.pow 2 1024 ≤ nearestDouble (nearestDouble numeral.leading.1 *
        nearestDouble (Nat.pow 10 numeral.leadingScale.toNat)) :=
      Nat.not_le.2 (nearestDouble_mul_lt ((Nat.mul_le_mul_right _ hsmall).trans_lt hroom))
    refine Bool.and_eq_false_iff.2 (.inr (Bool.or_eq_false_iff.2 ⟨?_, ?_⟩))
    · exact decide_eq_false (Int.not_lt.2 hpower)
    · exact decide_eq_false hfits
  · rw [decide_eq_false hscale, Bool.and_false, Bool.false_and]

end Numeral

end ComponentTags.Json
