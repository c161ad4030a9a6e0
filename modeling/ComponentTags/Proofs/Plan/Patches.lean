import ComponentTags.Plan.Splice
import ComponentTags.Proofs.Element.Layout

/-!
Patches. Splices that are apart from each other cut a text into characters that stay and characters
in the place of which others come; no splice is left out, and the same cut read the other way round
gives the text back.
-/

namespace ComponentTags

/-- A stretch of a text: characters that stay, then characters in the place of which others come. -/
structure Patch where
  kept : List Char
  old : List Char
  new : List Char
deriving DecidableEq, Repr

namespace Patch

/-- The patch that takes this one back. -/
def inverse (patch : Patch) : Patch :=
  { patch with old := patch.new, new := patch.old }

/-- The text that patches are for, which ends in `tail`. -/
def textBefore (patches : List Patch) (tail : List Char) : List Char :=
  patches.flatMap (fun patch => patch.kept ++ patch.old) ++ tail

/-- The text that patches give. -/
def textAfter (patches : List Patch) (tail : List Char) : List Char :=
  patches.flatMap (fun patch => patch.kept ++ patch.new) ++ tail

/-- The splices that patches are, of which the first one starts `position` bytes on. -/
def splices (position : Nat) : List Patch → List Splice
  | [] => []
  | patch :: patches =>
      let start := position + utf8Length patch.kept
      let stop := start + utf8Length patch.old
      { span := ⟨start, stop⟩, text := patch.new } :: splices stop patches

end Patch

namespace Splice

/-- The splices that are carried out, when the source up to `position` is done. -/
def taken (source : List Char) (position : Nat) : List Splice → List Splice
  | [] => []
  | splice :: rest =>
      if splice.span.start < position || utf8Length source < splice.span.stop then
        taken source position rest
      else
        splice :: taken source splice.span.stop rest

end Splice

/-- A span of a text, and what the characters are that it covers. -/
def CutsOut (source : List Char) (span : Span) (allows : List Char → Prop) : Prop :=
  ∃ front old rest, source = front ++ (old ++ rest) ∧ span.start = utf8Length front ∧
    span.stop = utf8Length front + utf8Length old ∧ allows old

section Texts

variable {source front rest tail : List Char} {position : Nat} {patches : List Patch}
  {splices : List Splice} {first second third : Splice}

theorem takeBytes_append (front rest : List Char) :
    takeBytes (utf8Length front) (front ++ rest) = front := by
  induction front with
  | nil =>
      cases rest with
      | nil => rfl
      | cons ch rest =>
          have hsize := ch.utf8Size_pos
          rw [List.nil_append, utf8Length, takeBytes, if_neg (by omega)]
  | cons ch front ih =>
      rw [List.cons_append, utf8Length, takeBytes, if_pos (Nat.le_add_right _ _),
        Nat.add_sub_cancel_left, ih]

theorem dropBytes_append (front rest : List Char) :
    dropBytes (utf8Length front) (front ++ rest) = rest := by
  induction front with
  | nil =>
      cases rest with
      | nil => rfl
      | cons ch rest =>
          have hsize := ch.utf8Size_pos
          rw [List.nil_append, utf8Length, dropBytes, if_neg (by omega)]
  | cons ch front ih =>
      rw [List.cons_append, utf8Length, dropBytes, if_pos (Nat.le_add_right _ _),
        Nat.add_sub_cancel_left, ih]

theorem sliceBytes_append (front middle rest : List Char) :
    sliceBytes (front ++ (middle ++ rest)) (utf8Length front)
      (utf8Length front + utf8Length middle) = middle := by
  rw [sliceBytes, ← utf8Length_append, ← List.append_assoc, takeBytes_append, dropBytes_append]

theorem textBefore_cons (patch : Patch) (patches : List Patch) (tail : List Char) :
    Patch.textBefore (patch :: patches) tail =
      patch.kept ++ (patch.old ++ Patch.textBefore patches tail) := by
  simp [Patch.textBefore]

theorem textBefore_append_cons (before : List Patch) (patch : Patch) (after : List Patch)
    (tail : List Char) : Patch.textBefore (before ++ patch :: after) tail =
      Patch.textBefore before patch.kept ++ (patch.old ++ Patch.textBefore after tail) := by
  simp [Patch.textBefore]

theorem textAfter_cons (patch : Patch) (patches : List Patch) (tail : List Char) :
    Patch.textAfter (patch :: patches) tail =
      patch.kept ++ (patch.new ++ Patch.textAfter patches tail) := by
  simp [Patch.textAfter]

theorem textBefore_inverse (patches : List Patch) (tail : List Char) :
    Patch.textBefore (patches.map Patch.inverse) tail = Patch.textAfter patches tail := by
  rw [Patch.textBefore, List.flatMap_map]
  rfl

theorem textAfter_inverse (patches : List Patch) (tail : List Char) :
    Patch.textAfter (patches.map Patch.inverse) tail = Patch.textBefore patches tail := by
  rw [Patch.textAfter, List.flatMap_map]
  rfl

/-! ### Carrying out patches -/

theorem fits_first (front : List Char) (patch : Patch) (patches : List Patch) (tail : List Char) :
    ¬(utf8Length front + utf8Length patch.kept < utf8Length front ||
      utf8Length (front ++ Patch.textBefore (patch :: patches) tail) <
        utf8Length front + utf8Length patch.kept + utf8Length patch.old) = true := by
  simp only [textBefore_cons, utf8Length_append, Bool.or_eq_true, decide_eq_true_eq]
  omega

theorem textBefore_front (front : List Char) (patch : Patch) (patches : List Patch)
    (tail : List Char) : front ++ Patch.textBefore (patch :: patches) tail =
      (front ++ patch.kept ++ patch.old) ++ Patch.textBefore patches tail := by
  simp [textBefore_cons]

theorem utf8Length_front (front : List Char) (patch : Patch) :
    utf8Length front + utf8Length patch.kept + utf8Length patch.old =
      utf8Length (front ++ patch.kept ++ patch.old) := by
  rw [utf8Length_append, utf8Length_append]

theorem taken_splices (front : List Char) (patches : List Patch) (tail : List Char) :
    Splice.taken (front ++ Patch.textBefore patches tail) (utf8Length front)
      (Patch.splices (utf8Length front) patches) = Patch.splices (utf8Length front) patches := by
  induction patches generalizing front with
  | nil => rfl
  | cons patch patches ih =>
      rw [Patch.splices, Splice.taken, if_neg (fits_first front patch patches tail)]
      congr 1
      dsimp only
      rw [utf8Length_front, textBefore_front]
      exact ih _

theorem applyFrom_splices (front : List Char) (patches : List Patch) (tail : List Char) :
    Splice.applyFrom (front ++ Patch.textBefore patches tail) (utf8Length front)
      (Patch.splices (utf8Length front) patches) = Patch.textAfter patches tail := by
  induction patches generalizing front with
  | nil => exact dropBytes_append front tail
  | cons patch patches ih =>
      rw [Patch.splices, Splice.applyFrom, if_neg (fits_first front patch patches tail)]
      have hkept : sliceBytes (front ++ Patch.textBefore (patch :: patches) tail)
          (utf8Length front) (utf8Length front + utf8Length patch.kept) = patch.kept := by
        rw [textBefore_cons]
        exact sliceBytes_append _ _ _
      dsimp only
      rw [hkept, utf8Length_front, textBefore_front, ih, textAfter_cons, List.append_assoc]

/-- The splices that are left out make no difference. -/
theorem applyFrom_taken (source : List Char) (position : Nat) (splices : List Splice) :
    Splice.applyFrom source position (Splice.taken source position splices) =
      Splice.applyFrom source position splices := by
  induction splices generalizing position with
  | nil => rfl
  | cons splice splices ih =>
      rw [Splice.taken, Splice.applyFrom]
      split
      · exact ih position
      · next hfits => rw [Splice.applyFrom, if_neg hfits, ih]

/-! ### The order of splices -/

theorem Splice.before_iff : first.before second = true ↔
    first.span.start < second.span.start ∨
      first.span.start = second.span.start ∧ first.span.stop ≤ second.span.stop := by
  simp [Splice.before]

theorem Splice.before_trans (h : first.before second = true) (h' : second.before third = true) :
    first.before third = true := by
  rw [Splice.before_iff] at *
  omega

theorem Splice.before_total (first second : Splice) :
    (first.before second || second.before first) = true := by
  rw [Bool.or_eq_true, Splice.before_iff, Splice.before_iff]
  omega

theorem start_le_of_mem_splices {splice : Splice} (h : splice ∈ Patch.splices position patches) :
    position ≤ splice.span.start ∧ splice.span.start ≤ splice.span.stop := by
  induction patches generalizing position with
  | nil => cases h
  | cons patch patches ih =>
      rw [Patch.splices] at h
      rcases List.mem_cons.1 h with rfl | h
      · exact ⟨Nat.le_add_right _ _, Nat.le_add_right _ _⟩
      · obtain ⟨hstart, hstop⟩ := ih h
        exact ⟨by omega, hstop⟩

/-- The patch that a splice is from, behind the text before it. -/
theorem exists_of_mem_splices {splice : Splice} (h : splice ∈ Patch.splices position patches) :
    ∃ before patch after, patches = before ++ patch :: after ∧ splice.text = patch.new ∧
      splice.span.start = position + utf8Length (Patch.textBefore before patch.kept) ∧
      splice.span.stop = splice.span.start + utf8Length patch.old := by
  induction patches generalizing position with
  | nil => cases h
  | cons first patches ih =>
      rw [Patch.splices] at h
      rcases List.mem_cons.1 h with rfl | h
      · exact ⟨[], first, patches, rfl, rfl, rfl, rfl⟩
      · obtain ⟨before, patch, after, rfl, htext, hstart, hstop⟩ := ih h
        refine ⟨first :: before, patch, after, rfl, htext, ?_, hstop⟩
        rw [hstart, textBefore_cons]
        simp only [utf8Length_append]
        omega

theorem pairwise_splices (position : Nat) (patches : List Patch) :
    (Patch.splices position patches).Pairwise fun first second => first.before second = true := by
  induction patches generalizing position with
  | nil => exact .nil
  | cons patch patches ih =>
      refine .cons ?_ (ih _)
      intro splice hsplice
      have hafter := start_le_of_mem_splices hsplice
      rw [Splice.before_iff]
      dsimp only at hafter ⊢
      omega

theorem applyAll_splices (patches : List Patch) (tail : List Char) :
    Splice.applyAll (Patch.textBefore patches tail) (Patch.splices 0 patches) =
      Patch.textAfter patches tail := by
  rw [Splice.applyAll, List.mergeSort_of_pairwise (pairwise_splices 0 patches)]
  exact applyFrom_splices [] patches tail

/-- Patches that were carried out can be taken back. -/
theorem applyAll_inverse (patches : List Patch) (tail : List Char) :
    Splice.applyAll (Patch.textAfter patches tail)
      (Patch.splices 0 (patches.map Patch.inverse)) = Patch.textBefore patches tail := by
  rw [← textBefore_inverse, applyAll_splices, textAfter_inverse]

/-! ### Splices that are apart -/

/-- Of splices that are in order and apart from each other, each is over before the next starts. -/
theorem pairwise_stop_le (hwords : ∀ splice ∈ splices, IsWord source splice.span)
    (hapart : (splices.map Splice.span).Pairwise Span.Apart)
    (hsorted : splices.Pairwise fun first second => first.before second = true) :
    splices.Pairwise fun first second => first.span.stop ≤ second.span.start := by
  have hboth := (List.pairwise_map.1 hapart).and hsorted
  refine hboth.imp_of_mem ?_
  intro first second hfirst hsecond ⟨hapart, hbefore⟩
  have hstop := (hwords first hfirst).start_le_stop
  have hstop' := (hwords second hsecond).start_le_stop
  rw [Splice.before_iff] at hbefore
  unfold Span.Apart at hapart
  omega

theorem exists_patches {allows : List Char → Prop}
    (hcuts : ∀ splice ∈ splices, CutsOut source splice.span allows)
    (hordered : splices.Pairwise fun first second => first.span.stop ≤ second.span.start)
    (hsource : source = front ++ rest)
    (hfront : ∀ splice ∈ splices, utf8Length front ≤ splice.span.start) :
    ∃ patches tail, Patch.splices (utf8Length front) patches = splices ∧
      rest = Patch.textBefore patches tail ∧ ∀ patch ∈ patches, allows patch.old := by
  induction splices generalizing front rest with
  | nil => exact ⟨[], rest, rfl, rfl, by simp⟩
  | cons splice splices ih =>
      obtain ⟨hfirst, hordered⟩ := List.pairwise_cons.1 hordered
      obtain ⟨start, old, behind, hsplit, hstart, hstop, hold⟩ := hcuts splice List.mem_cons_self
      have hle := hfront splice List.mem_cons_self
      rw [hstart] at hle
      obtain ⟨kept, rfl, rfl⟩ := exists_between (hsource.symm.trans hsplit) hle
      have hend : splice.span.stop = utf8Length (front ++ kept ++ old) := by
        rw [hstop, utf8Length_append (front ++ kept)]
      have hbehind : source = (front ++ kept ++ old) ++ behind := by
        rw [hsplit, List.append_assoc (front ++ kept)]
      have hlater : ∀ splice ∈ splices, utf8Length (front ++ kept ++ old) ≤ splice.span.start := by
        rw [← hend]
        exact hfirst
      obtain ⟨patches, tail, hsplices, rfl, hallows⟩ :=
        ih (fun splice hmem => hcuts splice (List.mem_cons_of_mem _ hmem)) hordered hbehind hlater
      refine ⟨⟨kept, old, splice.text⟩ :: patches, tail, ?_, ?_, ?_⟩
      · rw [Patch.splices]
        dsimp only
        rw [← utf8Length_append, ← hstop, ← hstart, hend, hsplices, ← hend]
      · rw [textBefore_cons]
      · intro patch hmem
        rcases List.mem_cons.1 hmem with rfl | hmem
        · exact hold
        · exact hallows patch hmem

end Texts

end ComponentTags
