import ComponentTags.Proofs.Artifact.Deeds
import ComponentTags.Proofs.Disk.Independence

/-!
Independent deeds. The modules of components with different identifiers can be written in any order.
-/

namespace ComponentTags

namespace Naming

variable {naming : Naming} {first second : Reference}

theorem moduleName_ne (h : (naming.identity first).identifier ≠ (naming.identity second).identifier) :
    naming.moduleName first ≠ naming.moduleName second := by
  intro heq
  have htext := congrArg String.toList heq
  simp only [moduleName, String.toList_append] at htext
  exact h (String.toList_inj.1 (List.append_cancel_right (List.append_cancel_right htext)))

theorem companionName_ne
    (h : (naming.identity first).identifier ≠ (naming.identity second).identifier) :
    naming.companionName first ≠ naming.companionName second := by
  intro heq
  have htext := congrArg String.toList heq
  simp only [companionName, String.toList_append] at htext
  exact h (String.toList_inj.1 (List.append_cancel_right htext))

/-- The names of a module and its companion. -/
def ownNames (naming : Naming) (reference : Reference) : List String :=
  [naming.moduleName reference, naming.companionName reference]

theorem IsProper.isPlainName_of_mem_ownNames (hproper : naming.IsProper) {name : String}
    (h : name ∈ naming.ownNames first) : IsPlainName name := by
  simp only [ownNames, List.mem_cons, List.not_mem_nil, or_false] at h
  rcases h with rfl | rfl
  · exact (hproper.isModuleName first).isPlainName
  · exact (hproper.isCompanionName first).isPlainName

theorem IsProper.ne_temporaryName_of_mem_ownNames (hproper : naming.IsProper) {name : String}
    (h : name ∈ naming.ownNames first) (mark other : String) : name ≠ temporaryName mark other := by
  simp only [ownNames, List.mem_cons, List.not_mem_nil, or_false] at h
  rcases h with rfl | rfl
  · exact (hproper.isModuleName first).ne_temporaryName mark other
  · exact (hproper.isCompanionName first).ne_temporaryName mark other

theorem IsProper.apart (hproper : naming.IsProper)
    (hne : (naming.identity first).identifier ≠ (naming.identity second).identifier)
    {name name' : String} (h : name ∈ naming.ownNames first) (h' : name' ∈ naming.ownNames second) :
    Disk.Apart name name' := by
  refine ⟨?_, hproper.ne_temporaryName_of_mem_ownNames h _ _,
    hproper.ne_temporaryName_of_mem_ownNames h' _ _⟩
  have hmodule := hproper.isModuleName first
  have hmodule' := hproper.isModuleName second
  simp only [ownNames, List.mem_cons, List.not_mem_nil, or_false] at h h'
  rcases h with rfl | rfl <;> rcases h' with rfl | rfl
  · exact moduleName_ne hne
  · exact hmodule.ne_companionName (hproper.isCompanionName second)
  · exact (hmodule'.ne_companionName (hproper.isCompanionName first)).symm
  · exact companionName_ne hne

end Naming

namespace Deed

/-- The names and texts of the files that a deed writes. -/
def saves (workshop : Workshop) (deed : Deed) : List (String × String) :=
  (workshop.naming.moduleName deed.reference, deed.text workshop) ::
    (deed.companions workshop).map fun file =>
      (workshop.naming.companionName deed.reference, file.content)

/-- What a deed makes of a disk, and whether all its files could be written. -/
def change (workshop : Workshop) (deed : Option Deed) (disk : Disk) : Disk × Bool :=
  ((disk.perform workshop deed).1, (disk.perform workshop deed).2.isOk)

variable {workshop : Workshop} {deed deed' : Deed} {disk : Disk}

theorem snd_change (workshop : Workshop) (deed : Deed) (disk : Disk) :
    (change workshop (some deed) disk).2 = (disk.writeAll
      ((deed.files workshop).map fun file => (file.path, file.content))).2.isOk :=
  rfl

theorem outputs_eq (workshop : Workshop) (deed : Deed) :
    deed.outputs workshop = (deed.saves workshop).map fun file =>
      (workshop.naming.directory / file.1, file.2) := by
  rw [outputs, files_eq, saves]
  rcases deed.companions_eq workshop with h | ⟨text, h⟩
  · rw [h]
    rfl
  · rw [h]
    rfl

theorem change_eq (workshop : Workshop) (deed : Deed) :
    change workshop (some deed) =
      Disk.saveAll workshop.naming.directory (deed.saves workshop) := by
  funext disk
  rw [← Disk.writeAll_eq_saveAll, ← outputs_eq]
  rfl

theorem fst_mem_ownNames {file : String × String} (h : file ∈ deed.saves workshop) :
    file.1 ∈ workshop.naming.ownNames deed.reference := by
  simp only [saves, List.mem_cons, List.mem_map] at h
  rcases h with rfl | ⟨companion, -, rfl⟩ <;> simp [Naming.ownNames]

section Proper

variable (hproper : workshop.naming.IsProper) (hfolder : workshop.naming.directory.EndsPlain)

include hproper hfolder

theorem keeps_change (deed : Option Deed) :
    Disk.Keeps workshop.naming.directory (change workshop deed) := by
  cases deed with
  | none => exact fun disk htidy => htidy
  | some deed =>
      rw [change_eq]
      exact Disk.keeps_saveAll hfolder fun file hfile =>
        hproper.isPlainName_of_mem_ownNames (fst_mem_ownNames hfile)

/-- **Deeds for different identifiers commute.** -/
theorem change_comm
    (hne : (workshop.naming.identity deed.reference).identifier ≠
      (workshop.naming.identity deed'.reference).identifier) :
    Disk.Commute workshop.naming.directory (change workshop (some deed))
      (change workshop (some deed')) := by
  rw [change_eq, change_eq]
  refine Disk.saveAll_comm hfolder ?_ ?_ fun file hfile file' hfile' => ?_
  · exact fun file hfile => hproper.isPlainName_of_mem_ownNames (fst_mem_ownNames hfile)
  · exact fun file hfile => hproper.isPlainName_of_mem_ownNames (fst_mem_ownNames hfile)
  · exact hproper.apart hne (fst_mem_ownNames hfile) (fst_mem_ownNames hfile')

/-- Whether a module is there does not depend on the modules of other identifiers. -/
theorem holds_change (htidy : disk.IsTidy workshop.naming.directory) {reference : Reference}
    (hne : (workshop.naming.identity deed.reference).identifier ≠
      (workshop.naming.identity reference).identifier) :
    (change workshop (some deed) disk).1.holds (workshop.naming.identity reference).path =
      disk.holds (workshop.naming.identity reference).path := by
  have hmem : workshop.naming.moduleName reference ∈ workshop.naming.ownNames reference :=
    List.mem_cons_self
  rw [change_eq]
  refine Disk.holds_saveAll hfolder (hproper.isPlainName_of_mem_ownNames hmem)
    (fun file hfile => ⟨?_, hproper.apart hne (fst_mem_ownNames hfile) hmem⟩) htidy
  exact hproper.isPlainName_of_mem_ownNames (fst_mem_ownNames hfile)

end Proper

end Deed

end ComponentTags
