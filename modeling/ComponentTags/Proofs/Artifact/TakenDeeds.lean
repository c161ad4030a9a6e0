import ComponentTags.Proofs.Artifact.IndependentDeeds
import ComponentTags.Proofs.Disk.Room

/-!
Deeds that are taken. The system takes all characters in the names of modules and companions, so where
there is room they can be written, unless their identifier is too long.
-/

namespace ComponentTags

namespace Naming

variable {naming : Naming} {reference : Reference} {name : String}

/-- The size of identifiers that are short enough for what the names of files add to them. -/
def maxIdentifierSize : Nat :=
  200

namespace IsProper

variable (hproper : naming.IsProper)

include hproper

theorem nul_notMem_identifier (reference : Reference) :
    '\x00' ∉ (naming.identity reference).identifier.toList := by
  obtain ⟨front, hidentifier, -, hchars⟩ := hproper.exists_identifier reference
  have hnul : isIdentifierChar '\x00' = false := by decide
  intro hmem
  rw [hidentifier, List.mem_append, List.mem_cons] at hmem
  rcases hmem with hmem | heq | hmem
  · simp [hchars '\x00' (List.mem_append_left _ hmem)] at hnul
  · cases heq
  · simp [hchars '\x00' (List.mem_append_right _ hmem)] at hnul

theorem nul_notMem_of_mem_ownNames (h : name ∈ naming.ownNames reference) :
    '\x00' ∉ name.toList := by
  have hidentifier := hproper.nul_notMem_identifier reference
  simp only [ownNames, List.mem_cons, List.not_mem_nil, or_false] at h
  rcases h with rfl | rfl
  · rcases hproper.extension with hextension | hextension <;>
      simp [moduleName, hextension, hidentifier]
  · simp [companionName, hidentifier]

theorem size_of_mem_ownNames (h : name ∈ naming.ownNames reference) :
    name.utf8ByteSize ≤ (naming.identity reference).identifier.utf8ByteSize + 15 := by
  have hdot : ".".utf8ByteSize = 1 := rfl
  have hcode : "CompiledCode.js".utf8ByteSize = 15 := rfl
  have hextension : naming.extension.utf8ByteSize ≤ 3 := by
    rcases hproper.extension with hextension | hextension <;> rw [hextension] <;> decide
  simp only [ownNames, List.mem_cons, List.not_mem_nil, or_false] at h
  rcases h with rfl | rfl
  · simp only [moduleName, String.utf8ByteSize_append, hdot]
    omega
  · simp only [companionName, String.utf8ByteSize_append, hcode]
    omega

theorem takes_of_mem_ownNames (hfolder : naming.directory.EndsPlain)
    (hnear : Disk.IsNear naming.directory)
    (hshort : (naming.identity reference).identifier.utf8ByteSize ≤ maxIdentifierSize)
    (h : name ∈ naming.ownNames reference) : Disk.Takes naming.directory name := by
  have hsize := hproper.size_of_mem_ownNames h
  refine Disk.takes_of_size hfolder hnear (hproper.isPlainName_of_mem_ownNames h)
    (hproper.nul_notMem_of_mem_ownNames h) ?_
  unfold Disk.maxOwnLength
  unfold maxIdentifierSize at hshort
  omega

end IsProper

end Naming

/-- **Where there is room, the files of a component can be written** unless its identifier is long. -/
theorem Deed.change_of_hasRoom {workshop : Workshop} {disk : Disk} {deed : Deed}
    (hproper : workshop.naming.IsProper) (hfolder : workshop.naming.directory.EndsPlain)
    (hnear : Disk.IsNear workshop.naming.directory)
    (hroom : disk.HasRoom workshop.naming.directory)
    (hshort : (workshop.naming.identity deed.reference).identifier.utf8ByteSize ≤
      Naming.maxIdentifierSize) :
    (change workshop (some deed) disk).2 = true ∧
      (change workshop (some deed) disk).1.HasRoom workshop.naming.directory := by
  rw [change_eq]
  refine hroom.saveAll hfolder fun file hfile => ?_
  have hown := fst_mem_ownNames hfile
  exact ⟨hproper.isPlainName_of_mem_ownNames hown,
    hproper.takes_of_mem_ownNames hfolder hnear hshort hown⟩

end ComponentTags
