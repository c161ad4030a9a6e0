import ComponentTags.Proofs.Element.TagStructure
import ComponentTags.Proofs.Plan.Patches

/-!
Boundaries. An offset lies between two characters of a text, or it cuts one; which of the two follows
from the characters that lie before it as a whole.
-/

namespace ComponentTags

theorem takeBytes_append_dropBytes (offset : Nat) (source : List Char) :
    takeBytes offset source ++ dropBytes offset source = source := by
  induction source generalizing offset with
  | nil => rfl
  | cons ch source ih =>
      rw [takeBytes, dropBytes]
      split
      · rw [List.cons_append, ih]
      · rfl

/-- An offset is a boundary when the characters before it take up just that many bytes. -/
theorem isBoundary_iff {source : List Char} {offset : Nat} :
    IsBoundary source offset ↔ utf8Length (takeBytes offset source) = offset := by
  constructor
  · rintro ⟨front, rest, rfl, rfl⟩
    rw [takeBytes_append]
  · intro h
    exact ⟨takeBytes offset source, dropBytes offset source,
      (takeBytes_append_dropBytes offset source).symm, h.symm⟩

instance (source : List Char) (offset : Nat) : Decidable (IsBoundary source offset) :=
  decidable_of_iff _ isBoundary_iff.symm

theorem takeBytes_inside (front rest : List Char) {ch : Char} {n : Nat} (hn : n < ch.utf8Size) :
    takeBytes (utf8Length front + n) (front ++ ch :: rest) = front := by
  induction front with
  | nil => rw [utf8Length, List.nil_append, takeBytes, if_neg (by omega)]
  | cons first front ih =>
      rw [List.cons_append, utf8Length, takeBytes, if_pos (by omega),
        show first.utf8Size + utf8Length front + n - first.utf8Size = utf8Length front + n by omega,
        ih]

/-- An offset behind the first byte of a character and before the next character cuts it. -/
theorem not_isBoundary_inside (front rest : List Char) {ch : Char} {n : Nat} (hpos : 0 < n)
    (hn : n < ch.utf8Size) : ¬IsBoundary (front ++ ch :: rest) (utf8Length front + n) := by
  rw [isBoundary_iff, takeBytes_inside front rest hn]
  omega

end ComponentTags
