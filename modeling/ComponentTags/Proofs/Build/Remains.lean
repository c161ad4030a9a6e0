import ComponentTags.Proofs.Build.Contents
import ComponentTags.Proofs.Disk.Standing

/-!
What remains. After a fresh build without write errors, whatever the component directory held before,
the files of a component that came up hold what was written for it, or what they held at the start.
-/

namespace ComponentTags.Build

variable {call : Call} {directory : Path} {build : Build} {reference : Reference}
  {settled lost : List Reference} {name : String}

/-- All that a build was to write could be written. -/
def HasNoWriteErrors (build : Build) : Prop :=
  ∀ report ∈ build.reports, report.writeErrors = 0

instance (build : Build) : Decidable build.HasNoWriteErrors :=
  inferInstanceAs (Decidable (∀ report ∈ build.reports, report.writeErrors = 0))

/-- A component is visited in a build. -/
def IsVisited (build : Build) (reference : Reference) : Prop :=
  ∃ visit ∈ build.visits, visit.component.reference = reference

instance (build : Build) (reference : Reference) : Decidable (build.IsVisited reference) :=
  inferInstanceAs (Decidable (∃ visit ∈ build.visits, visit.component.reference = reference))

theorem meets_of_isVisited (horderly : call.IsOrderly directory)
    (hsteps : Relation.ReflTransGen (StepsTo call.setting) call.opening build)
    (hvisited : build.IsVisited reference) : call.Meets reference := by
  obtain ⟨owner, settled, lost, hfits, -⟩ := exists_ledger horderly hsteps
  obtain ⟨visit, hmem, rfl⟩ := hvisited
  obtain ⟨i, hvisit⟩ := List.mem_iff_getElem?.1 hmem
  exact (hfits.comes i visit hvisit).met

namespace Call

/-- What is left under the name of a file: what is written for a component, or what stood there. -/
noncomputable def remains (call : Call) (reference : Reference) (name : String) :
    Option DiskEntry :=
  (((call.saves reference).lookup name).map fun text => .file (Utf8.encode text.toList)).or
    (call.disk.standing call.naming.directory name)

/-- A component whose files are not written was found. -/
theorem known?_of_saves (h : call.saves reference = []) : (call.known? reference).isSome := by
  rw [saves, deed?, fate] at h
  cases hknown : call.known? reference with
  | some deps => rfl
  | none =>
      rw [hknown] at h
      cases hanswer : answer? call.setting reference <;> simp [hanswer, Deed.saves] at h

theorem holds_of_known? (h : (call.known? reference).isSome) :
    call.disk.holds (call.naming.identity reference).path = true := by
  unfold known? at h
  split at h
  · split at h
    · next hheld => exact hheld
    · cases h
  · cases h

namespace IsOrderly

variable (h : call.IsOrderly directory)

include h

/-- The files of the component that is settled next can be written on the disk as it is then. -/
theorem saved_next (hnodup : (reference :: settled).Nodup)
    (hmeets : ∀ other ∈ reference :: settled, call.Meets other)
    (hmanages : call.manages reference = true) :
    ((call.diskAfter settled).saveAll call.naming.directory (call.saves reference)).2 = true := by
  rw [← call.change_eq]
  exact (h.manages_after (hmeets reference List.mem_cons_self)
    (fun other hother => hmeets other (List.mem_cons_of_mem reference hother))
    (List.nodup_cons.1 hnodup).1).trans hmanages

/-- What stands under a name when some components are settled is what was written last, if anything. -/
theorem standing_diskAfter (hnodup : settled.Nodup)
    (hmeets : ∀ reference ∈ settled, call.Meets reference)
    (hmanages : ∀ reference ∈ settled, call.manages reference = true)
    (hname : Disk.IsLasting name) :
    (call.diskAfter settled).standing call.naming.directory name =
      ((call.textsOf settled name).map fun text => .file (Utf8.encode text.toList)).or
        (call.disk.standing call.naming.directory name) := by
  induction settled with
  | nil => rfl
  | cons reference settled ih =>
      have hbefore := ih hnodup.of_cons
        (fun other hother => hmeets other (List.mem_cons_of_mem reference hother))
        (fun other hother => hmanages other (List.mem_cons_of_mem reference hother))
      have htidy : (call.diskAfter settled).IsTidy call.naming.directory :=
        h.tidy.applyAll h.keeps settled
      have hsaved := h.saved_next hnodup hmeets (hmanages reference List.mem_cons_self)
      have htexts : call.textsOf (reference :: settled) name =
          ((call.saves reference).lookup name).or (call.textsOf settled name) := by
        rw [textsOf, List.findSome?_cons]
        cases (call.saves reference).lookup name <;> rfl
      show (call.change reference (call.diskAfter settled)).1.standing _ _ = _
      rw [call.change_eq, Disk.standing_saveAll h.endsPlain htidy
        (fun file hfile => h.isLasting hfile) (h.nodup_saves reference) hsaved hname, hbefore, htexts]
      cases (call.saves reference).lookup name <;> rfl

/-- The component directory is there if it was at the start or files of some component are written. -/
theorem isDirectory_diskAfter (hnodup : settled.Nodup)
    (hmeets : ∀ reference ∈ settled, call.Meets reference)
    (hmanages : ∀ reference ∈ settled, call.manages reference = true)
    (hthere : call.disk.isDirectory call.naming.directory = true ∨
      ∃ reference ∈ settled, call.saves reference ≠ []) :
    (call.diskAfter settled).isDirectory call.naming.directory = true := by
  induction settled with
  | nil => exact hthere.resolve_right fun hsome => by simp at hsome
  | cons reference settled ih =>
      have htidy : (call.diskAfter settled).IsTidy call.naming.directory :=
        h.tidy.applyAll h.keeps settled
      have hsaved := h.saved_next hnodup hmeets (hmanages reference List.mem_cons_self)
      show (call.change reference (call.diskAfter settled)).1.isDirectory _ = true
      rw [call.change_eq]
      refine Disk.isDirectory_saveAll h.endsPlain htidy (fun file hfile => h.isLasting hfile) hsaved ?_
      by_cases hsaves : call.saves reference = []
      · refine .inl (ih hnodup.of_cons
          (fun other hother => hmeets other (List.mem_cons_of_mem reference hother))
          (fun other hother => hmanages other (List.mem_cons_of_mem reference hother)) ?_)
        simpa [hsaves] using hthere
      · exact .inr hsaves

theorem isDirectory_of_known? (hknown : (call.known? reference).isSome) :
    call.disk.isDirectory call.naming.directory = true :=
  Disk.isDirectory_of_holds h.endsPlain h.tidy (h.isProper.isModuleName reference).isPlainName
    (call.holds_of_known? hknown)

end IsOrderly

end Call

namespace Outcome

variable (h : Outcome call build settled lost) (horderly : call.IsOrderly directory)
  (hwrites : build.HasNoWriteErrors)

include h hwrites

/-- The files of all that was settled could be written. -/
theorem manages (hmem : reference ∈ settled) : call.manages reference = true := by
  obtain ⟨cycles, hreports, -⟩ := h.reports
  have hnone : (call.tally settled).writeErrors = 0 := by
    have hsum := hwrites _ (by rw [hreports]; exact List.mem_singleton_self _)
    exact (Nat.add_eq_zero_iff.1 hsum).1
  have hdues := writeErrors_tally hnone hmem
  unfold Call.dues at hdues
  split at hdues
  · next deps hfate =>
      rw [Call.manages, Call.change, Call.deed?, hfate]
      rfl
  · by_contra hmanages
    simp [written, hmanages, Report.zero] at hdues
  · by_contra hmanages
    simp [hmanages, Report.zero] at hdues

include horderly

theorem isDirectory (hmeets : call.Meets reference) :
    build.disk.isDirectory call.naming.directory = true := by
  rw [h.disk]
  refine horderly.isDirectory_diskAfter h.once (fun other hother => (h.mem_settled other).1 hother)
    (fun other hother => h.manages hwrites hother) ?_
  by_cases hsaves : call.saves reference = []
  · exact .inl (horderly.isDirectory_of_known? (call.known?_of_saves hsaves))
  · exact .inr ⟨reference, (h.mem_settled reference).2 hmeets, hsaves⟩

/-- **What remains of a component** that came up. -/
theorem standing_eq (hmeets : call.Meets reference) (hname : name ∈ call.naming.ownNames reference) :
    build.disk.standing call.naming.directory name = call.remains reference name := by
  have hlasting : Disk.IsLasting name :=
    ⟨horderly.isProper.isPlainName_of_mem_ownNames hname,
      horderly.isProper.ne_temporaryName_of_mem_ownNames hname Disk.plainMark⟩
  have hsettled := fun other hother => (h.mem_settled other).1 hother
  rw [h.disk, horderly.standing_diskAfter h.once hsettled
    (fun other hother => h.manages hwrites hother) hlasting,
    horderly.textsOf_eq hsettled ((h.mem_settled reference).2 hmeets) hname]
  rfl

end Outcome

end ComponentTags.Build
