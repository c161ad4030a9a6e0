import ComponentTags.Proofs.Plan.Rewriting
import Mathlib.Data.List.Nodup

/-!
Rewording a text by parts. A text that comes of another one part by part is what the splices of all
parts make of it, in whatever order they are staged.
-/

namespace ComponentTags

/--
Splices reword a text that starts at an offset. Characters are replaced, something is put in before
a text that goes on from there, or both are done in parts of the text.
-/
inductive Rewords : Nat → List Splice → List Char → List Char → Prop
  | keep (start : Nat) (text : List Char) : Rewords start [] text text
  | replace (start : Nat) {old : List Char} (h : old ≠ []) (new : List Char) :
      Rewords start [{ span := ⟨start, start + utf8Length old⟩, text := new }] old new
  | insert {start : Nat} {splices : List Splice} {before after : List Char} (new : List Char)
      (h : Rewords start splices before after) (hne : before ≠ [])
      (hlater : ∀ splice ∈ splices, start < splice.span.start) :
      Rewords start ({ span := ⟨start, start⟩, text := new } :: splices) before (new ++ after)
  | append {start : Nat} {first second : List Splice} {before after before' after' : List Char}
      (h : Rewords start first before after)
      (h' : Rewords (start + utf8Length before) second before' after') :
      Rewords start (first ++ second) (before ++ before') (after ++ after')
  | perm {start : Nat} {first second : List Splice} {before after : List Char}
      (h : Rewords start first before after) (hperm : first.Perm second) :
      Rewords start second before after

section Rewording

variable {start : Nat} {splices : List Splice} {before after old new rest : List Char}

namespace Rewords

/-- What stands before a reworded text and stays. -/
theorem behind (start : Nat) (text : List Char)
    (h : Rewords (start + utf8Length text) splices before after) :
    Rewords start splices (text ++ before) (text ++ after) :=
  .append (.keep start text) h

/-- What stands behind a reworded text and stays. -/
theorem followed (h : Rewords start splices before after) (text : List Char) :
    Rewords start splices (before ++ text) (after ++ text) :=
  (List.append_nil splices) ▸ .append h (.keep _ text)

end Rewords

/-! ### The places of the splices -/

theorem utf8Length_pos (h : old ≠ []) : 0 < utf8Length old :=
  Nat.pos_of_ne_zero fun hzero => h (utf8Length_eq_zero hzero)

theorem Rewords.start_mem (h : Rewords start splices before after) :
    ∀ splice ∈ splices,
      start ≤ splice.span.start ∧ splice.span.start < start + utf8Length before := by
  induction h with
  | keep => nofun
  | replace start hold =>
      intro splice hsplice
      obtain rfl := List.mem_singleton.1 hsplice
      have hpos := utf8Length_pos hold
      dsimp only
      omega
  | insert new _ hne _ ih =>
      intro splice hsplice
      rcases List.mem_cons.1 hsplice with rfl | hsplice
      · have hpos := utf8Length_pos hne
        dsimp only
        omega
      · exact ih splice hsplice
  | append _ _ ih ih' =>
      intro splice hsplice
      rw [utf8Length_append]
      rcases List.mem_append.1 hsplice with hsplice | hsplice
      · have hfirst := ih splice hsplice
        omega
      · have hsecond := ih' splice hsplice
        omega
  | perm _ hperm ih => exact fun splice hsplice => ih splice (hperm.mem_iff.2 hsplice)

/-- Splices that start at different places. -/
theorem Rewords.nodup (h : Rewords start splices before after) :
    (splices.map fun splice => splice.span.start).Nodup := by
  induction h with
  | keep => exact .nil
  | replace => exact List.pairwise_singleton _ _
  | insert _ _ _ hlater ih =>
      rw [List.map_cons, List.nodup_cons]
      refine ⟨fun hmem => ?_, ih⟩
      obtain ⟨splice, hsplice, heq⟩ := List.mem_map.1 hmem
      have hstart := hlater splice hsplice
      dsimp only at heq
      omega
  | append h h' ih ih' =>
      rw [List.map_append, List.nodup_append]
      refine ⟨ih, ih', ?_⟩
      intro place hplace place' hplace' heq
      obtain ⟨splice, hsplice, rfl⟩ := List.mem_map.1 hplace
      obtain ⟨splice', hsplice', rfl⟩ := List.mem_map.1 hplace'
      have hfirst := h.start_mem splice hsplice
      have hsecond := h'.start_mem splice' hsplice'
      omega
  | perm _ hperm ih => exact (hperm.map _).nodup_iff.1 ih

/-! ### Carrying them out -/

theorem exists_patches_append (patches patches' : List Patch) (tail tail' : List Char) :
    ∃ patches'' tail'', Patch.textBefore patches'' tail'' =
        Patch.textBefore patches tail ++ Patch.textBefore patches' tail' ∧
      Patch.textAfter patches'' tail'' =
        Patch.textAfter patches tail ++ Patch.textAfter patches' tail' ∧
      ∀ position, Patch.splices position patches'' = Patch.splices position patches ++
        Patch.splices (position + utf8Length (Patch.textBefore patches tail)) patches' := by
  induction patches with
  | nil =>
      cases patches' with
      | nil => exact ⟨[], tail ++ tail', rfl, rfl, fun _ => rfl⟩
      | cons patch patches' =>
          refine ⟨{ patch with kept := tail ++ patch.kept } :: patches', tail', ?_, ?_, ?_⟩
          · simp [Patch.textBefore]
          · simp [Patch.textAfter]
          · intro position
            simp [Patch.splices, Patch.textBefore, utf8Length_append, Nat.add_assoc]
  | cons patch patches ih =>
      obtain ⟨patches'', tail'', hbefore, hafter, hsplices⟩ := ih
      refine ⟨patch :: patches'', tail'', ?_, ?_, ?_⟩
      · simp only [textBefore_cons, hbefore, List.append_assoc]
      · simp only [textAfter_cons, hafter, List.append_assoc]
      · intro position
        simp only [Patch.splices, hsplices, textBefore_cons, utf8Length_append, List.cons_append,
          Nat.add_assoc]

theorem Rewords.exists_patches (h : Rewords start splices before after) :
    ∃ patches tail, Patch.textBefore patches tail = before ∧ Patch.textAfter patches tail = after ∧
      (Patch.splices start patches).Perm splices := by
  induction h with
  | keep start text => exact ⟨[], text, rfl, rfl, .refl _⟩
  | @replace start old hold new =>
      exact ⟨[⟨[], old, new⟩], [], by simp [Patch.textBefore], by simp [Patch.textAfter], .refl _⟩
  | insert new _ _ _ ih =>
      obtain ⟨patches, tail, rfl, rfl, hperm⟩ := ih
      exact ⟨⟨[], [], new⟩ :: patches, tail, textBefore_cons _ _ _, textAfter_cons _ _ _,
        .cons _ hperm⟩
  | append _ _ ih ih' =>
      obtain ⟨patches, tail, rfl, rfl, hperm⟩ := ih
      obtain ⟨patches', tail', rfl, rfl, hperm'⟩ := ih'
      obtain ⟨patches'', tail'', hbefore, hafter, hsplices⟩ :=
        exists_patches_append patches patches' tail tail'
      exact ⟨patches'', tail'', hbefore, hafter, hsplices _ ▸ hperm.append hperm'⟩
  | perm _ hperm ih =>
      obtain ⟨patches, tail, hbefore, hafter, hperm'⟩ := ih
      exact ⟨patches, tail, hbefore, hafter, hperm'.trans hperm⟩

/-- **What splices make of a text that they reword.** -/
theorem Rewords.applyAll (h : Rewords 0 splices before after) :
    Splice.applyAll before splices = after := by
  obtain ⟨patches, tail, rfl, rfl, hperm⟩ := h.exists_patches
  have hsorted : (splices.mergeSort Splice.before).Pairwise fun first second =>
      first.before second = true :=
    @List.pairwise_mergeSort _ Splice.before (fun _ _ _ => Splice.before_trans)
      Splice.before_total _
  have hsame : splices.mergeSort Splice.before = Patch.splices 0 patches := by
    refine List.Perm.eq_of_pairwise ?_ hsorted (pairwise_splices 0 patches)
      ((List.mergeSort_perm _ _).trans hperm.symm)
    intro first second hfirst hsecond hle hge
    rw [Splice.before_iff] at hle hge
    refine List.inj_on_of_nodup_map h.nodup ((List.mergeSort_perm _ _).mem_iff.1 hfirst)
      (hperm.mem_iff.1 hsecond) ?_
    omega
  rw [Splice.applyAll, hsame]
  exact applyFrom_splices [] patches tail

/-- What a plan makes of a source that its splices reword. -/
theorem apply_of_rewords {plan : Plan} {source : String}
    (h : Rewords 0 (plan.splices source.toList) source.toList after) :
    plan.apply source = String.ofList after := by
  rw [apply_eq]
  exact congrArg String.ofList h.applyAll

end Rewording

end ComponentTags
