import ComponentTags.Proofs.Disk.Shelves

/-!
Room. A folder that is there or can be made, and that holds files alone, takes every file whose name the
system takes. It is as before then, so it takes the next one as well.
-/

namespace ComponentTags.Disk

variable {disk : Disk} {folder : Path} {name : String}
  {files : List (String × String)}

/-- A folder whose path can be followed by any name that is not too long itself. -/
structure IsNear (folder : Path) : Prop where
  notMem : '\x00' ∉ folder.text.toList
  size : folder.text.utf8ByteSize ≤ 3072

/-- The size of the names that are not too long with what their temporary siblings have around them. -/
def maxOwnLength : Nat :=
  217

theorem nameFault?_eq_none (hfolder : folder.EndsPlain) (hnear : IsNear folder)
    (hname : IsPlainName name) (hnul : '\x00' ∉ name.toList)
    (hsize : name.utf8ByteSize ≤ maxNameLength) : nameFault? folder name = none := by
  have htext := hfolder.text_join hname
  have hfault : textFault? (folder / name) = none := by
    have hslash : "/".utf8ByteSize = 1 := rfl
    have hlength := hnear.size
    have hnear := hnear.notMem
    unfold textFault? maxNameLength at *
    rw [htext, if_neg, if_neg, if_neg]
    · simp [hfolder.text_ne]
    · simp only [String.utf8ByteSize_append, maxPathLength]
      omega
    · simp [hnear, hnul]
  unfold nameFault?
  rw [hfault]
  exact if_neg (Nat.not_lt.2 hsize)

/-- The system takes names that are short enough for their temporary siblings. -/
theorem takes_of_size (hfolder : folder.EndsPlain) (hnear : IsNear folder)
    (hname : IsPlainName name) (hnul : '\x00' ∉ name.toList)
    (hsize : name.utf8ByteSize ≤ maxOwnLength) : Takes folder name := by
  have hmark : (temporaryName plainMark name).utf8ByteSize = name.utf8ByteSize + 38 := by
    have hdot : ".".utf8ByteSize = 1 := rfl
    have hend : ".tmp".utf8ByteSize = 4 := rfl
    have hplain : plainMark.utf8ByteSize = 32 := by decide
    simp only [temporaryName, String.utf8ByteSize_append, hdot, hend, hplain]
    omega
  have hdigits : '\x00' ∉ plainMark.toList := by decide
  unfold maxOwnLength at hsize
  refine ⟨nameFault?_eq_none hfolder hnear hname hnul ?_, nameFault?_eq_none hfolder hnear
    (isPlainName_temporaryName_plainMark hname) ?_ ?_⟩
  · unfold maxNameLength
    omega
  · simp [temporaryName, hnul, hdigits]
  · rw [hmark, maxNameLength]
    omega

/-- A folder is there or can be made, and nothing in it stands in the way of a file. -/
structure HasRoom (folder : Path) (disk : Disk) : Prop where
  isTidy : disk.IsTidy folder
  made : (disk.ensureDirectory folder).1.isDirectory folder = true
  free : ∀ name, disk.entry? (name :: disk.spotOf folder) ≠ some .directory

theorem hasRoom_of_isDirectory (htree : disk.IsTree) (hthere : disk.isDirectory folder = true)
    (hfree : ∀ name, disk.entry? (name :: disk.spotOf folder) ≠ some .directory) :
    HasRoom folder disk where
  isTidy := ⟨htree, .inr hthere⟩
  made := by
    rw [ensureDirectory_of_isDirectory hthere]
    exact hthere
  free := hfree

theorem spotOf_put (disk : Disk) (spot : Spot) (entry : DiskEntry) (path : Path) :
    Disk.spotOf (disk.put spot entry) path = disk.spotOf path :=
  spotOf_congr rfl path

/-- There still is room when a new file was put into the folder. -/
theorem HasRoom.put (h : HasRoom folder disk) (hthere : disk.isDirectory folder = true)
    (hnew : disk.entry? (name :: disk.spotOf folder) = none) (content : List UInt8) :
    (disk.put (name :: disk.spotOf folder) (.file content)).isDirectory folder = true ∧
      HasRoom folder (disk.put (name :: disk.spotOf folder) (.file content)) := by
  obtain ⟨spot, hspot, hdirectory⟩ := isDirectory_eq_true_iff.1 hthere
  obtain rfl := locate_eq_spotOf hspot
  have hkeeps : disk.KeepsDirectories (disk.put (name :: disk.spotOf folder) (.file content)) :=
    { workingDirectory := rfl
      entry := fun place hplace => by
        rw [entry_put, if_neg, hplace]
        rintro ⟨rfl, -⟩
        rw [hnew] at hplace
        cases hplace }
  have hstill := isDirectory_mono hkeeps hthere
  refine ⟨hstill, hasRoom_of_isDirectory (h.isTidy.isTree.put hdirectory hnew _) hstill ?_⟩
  intro other
  rw [spotOf_put, entry_put]
  split
  · nofun
  · exact h.free other

section Put

variable (hfree : ∀ name, disk.entry? (name :: disk.spotOf folder) ≠ some .directory)

include hfree

theorem putFile_of_free (htakes : Takes folder name) (content : List UInt8) :
    (disk.putFile folder name content).2 = true := by
  unfold putFile
  simp only [htakes.1, htakes.2, hfree name, hfree (temporaryName plainMark name),
    Option.isSome_none, decide_false, Bool.or_false, Bool.false_eq_true, if_false]
  split <;> rfl

theorem free_putFile (name : String) (content : List UInt8) (other : String) :
    Disk.entry? (disk.putFile folder name content).1
      (other :: (disk.putFile folder name content).1.spotOf folder) ≠ some .directory := by
  rw [spotOf_putFile]
  rcases disk.putFile_cases folder name content with ⟨done, hput⟩ | ⟨hput, -⟩
  · rw [hput]
    exact hfree other
  · rw [hput, entry_replaced]
    split
    · nofun
    · split
      · nofun
      · exact hfree other

end Put

variable (hfolder : folder.EndsPlain)

include hfolder

/-- **Where there is room, a file can be written**, and there still is room afterwards. -/
theorem HasRoom.save (h : HasRoom folder disk) (hname : IsPlainName name)
    (htakes : Takes folder name) (text : String) :
    (disk.save folder name text).2 = true ∧ HasRoom folder (disk.save folder name text).1 := by
  have hready := prepared_ensureDirectory hfolder h.isTidy
  have hthere := h.made
  generalize (disk.ensureDirectory folder).1 = ready at hready hthere
  have hfree : ∀ other, ready.entry? (other :: ready.spotOf folder) ≠ some .directory := by
    intro other
    rw [hready.entry hthere]
    exact h.free other
  have hput := save_of_isDirectory hfolder hname hthere text
  have hok := putFile_of_free hfree htakes (Utf8.encode text.toList)
  have hsave : disk.save folder name text =
      ready.putFile folder name (Utf8.encode text.toList) := by
    rcases hready.save name hname text with hsame | ⟨-, hrefused⟩
    · exact hsame.trans hput
    · rw [← hput, hrefused] at hok
      cases hok
  rw [hsave]
  have hkeeps := ready.keepsDirectories_putFile folder name (Utf8.encode text.toList)
  exact ⟨hok, hasRoom_of_isDirectory (isTree_putFile hready.isTidy.isTree hthere)
    (isDirectory_mono hkeeps hthere) (free_putFile hfree name _)⟩

theorem HasRoom.saveAll (h : HasRoom folder disk)
    (hfiles : ∀ file ∈ files, IsPlainName file.1 ∧ Takes folder file.1) :
    (disk.saveAll folder files).2 = true ∧ HasRoom folder (disk.saveAll folder files).1 := by
  induction files generalizing disk with
  | nil => exact ⟨rfl, h⟩
  | cons file files ih =>
      obtain ⟨hname, htakes⟩ := hfiles file List.mem_cons_self
      obtain ⟨hok, hroom⟩ := h.save hfolder hname htakes file.2
      obtain ⟨hokAll, hroomAll⟩ := ih hroom fun other hother =>
        hfiles other (List.mem_cons_of_mem _ hother)
      exact ⟨Bool.and_eq_true_iff.2 ⟨hok, hokAll⟩, hroomAll⟩

end ComponentTags.Disk
