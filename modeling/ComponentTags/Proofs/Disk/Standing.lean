import ComponentTags.Proofs.Disk.Shelves

/-!
What stands in a folder. A file that can be saved stands under its name with its text; whatever stands
under another name, or did before the folder was there, stays.
-/

namespace ComponentTags.Disk

variable {disk next : Disk} {folder : Path} {name other text : String} {content : List UInt8}
  {files : List (String × String)}

/-- What stands in a folder under a name. -/
def standing (folder : Path) (name : String) (disk : Disk) : Option DiskEntry :=
  disk.entry? (name :: disk.spotOf folder)

theorem IsLasting.apart (hname : IsLasting name) (hother : IsLasting other) (hne : name ≠ other) :
    Apart name other where
  names := hne
  left := hname.ne_temporaryName other
  right := hother.ne_temporaryName name

theorem standing_putFile (hok : (disk.putFile folder name content).2 = true) :
    (disk.putFile folder name content).1.standing folder name = some (.file content) := by
  rw [standing, spotOf_putFile]
  unfold putFile at hok ⊢
  dsimp only at hok ⊢
  split at hok
  · cases hok
  · next hfault =>
      rw [if_neg hfault]
      split at hok
      · next hsame => rwa [if_pos hsame]
      · next hchanged =>
          rw [if_neg hchanged]
          split at hok
          · cases hok
          · next hfault' => rw [if_neg hfault', entry_replaced, if_pos rfl]

theorem standing_putFile_of_apart (hapart : Apart name other) :
    (disk.putFile folder name content).1.standing folder other = disk.standing folder other := by
  rw [standing, spotOf_putFile, entry_putFile_of_ne (by simp [hapart.names.symm])
    (by simp [hapart.right])]
  rfl

section Folder

variable (hfolder : folder.EndsPlain)

include hfolder

/-- **A file that can be saved** stands in the folder, and all else that lasts is as before. -/
theorem standing_save (htidy : disk.IsTidy folder) (hname : IsLasting name)
    (hok : (disk.save folder name text).2 = true) :
    (disk.save folder name text).1.isDirectory folder = true ∧
      (disk.save folder name text).1.standing folder name =
        some (.file (Utf8.encode text.toList)) ∧
      ∀ other, IsLasting other → other ≠ name →
        (disk.save folder name text).1.standing folder other = disk.standing folder other := by
  obtain ⟨ready, hthere, -, hsame, hsave⟩ :=
    exists_ready_of_save hfolder htidy hname.isPlainName hok
  rw [hsave] at hok ⊢
  refine ⟨?_, standing_putFile hok, fun other hother hne => ?_⟩
  · exact isDirectory_mono (ready.keepsDirectories_putFile _ _ _) hthere
  · exact (standing_putFile_of_apart (hname.apart hother hne.symm)).trans (hsame other)

theorem isDirectory_saveAll (htidy : disk.IsTidy folder) (hlasting : ∀ file ∈ files, IsLasting file.1)
    (hok : (disk.saveAll folder files).2 = true)
    (hthere : disk.isDirectory folder = true ∨ files ≠ []) :
    (disk.saveAll folder files).1.isDirectory folder = true := by
  induction files generalizing disk with
  | nil => exact hthere.resolve_right fun hne => hne rfl
  | cons file files ih =>
      obtain ⟨name, text⟩ := file
      rw [Shelf.saveAll_cons] at hok ⊢
      obtain ⟨hok, hrest⟩ := Bool.and_eq_true_iff.1 hok
      have hname := hlasting _ List.mem_cons_self
      exact ih (htidy.save hfolder hname.isPlainName text)
        (fun file hfile => hlasting file (List.mem_cons_of_mem _ hfile)) hrest
        (.inl (standing_save hfolder htidy hname hok).1)

/-- **What stands under a name** when some files were saved is the text of that name among them, or
what stood there before. -/
theorem standing_saveAll (htidy : disk.IsTidy folder)
    (hlasting : ∀ file ∈ files, IsLasting file.1) (hnodup : (files.map Prod.fst).Nodup)
    (hok : (disk.saveAll folder files).2 = true) (hother : IsLasting other) :
    (disk.saveAll folder files).1.standing folder other =
      ((files.lookup other).map fun text => .file (Utf8.encode text.toList)).or
        (disk.standing folder other) := by
  induction files generalizing disk with
  | nil => rfl
  | cons file files ih =>
      obtain ⟨name, text⟩ := file
      obtain ⟨hnew, hnodup⟩ := List.nodup_cons.1 hnodup
      rw [Shelf.saveAll_cons] at hok ⊢
      obtain ⟨hok, hrest⟩ := Bool.and_eq_true_iff.1 hok
      have hname := hlasting _ List.mem_cons_self
      obtain ⟨-, hown, hothers⟩ := standing_save hfolder htidy hname hok
      refine (ih (htidy.save hfolder hname.isPlainName text)
        (fun file hfile => hlasting file (List.mem_cons_of_mem _ hfile)) hnodup hrest).trans ?_
      rw [List.lookup_cons]
      by_cases heq : other = name
      · subst heq
        rw [lookup_eq_none hnew, hown]
        simp
      · rw [hothers other hother heq, beq_false_of_ne heq]

/-- What is read from a folder that is there is told by what stands in it. -/
theorem read_congr (hname : IsPlainName name) (hthere : disk.isDirectory folder = true)
    (hthere' : next.isDirectory folder = true)
    (hsame : disk.standing folder name = next.standing folder name) :
    disk.read (folder / name) = next.read (folder / name) := by
  have hlookup : disk.lookup (folder / name) = next.lookup (folder / name) := by
    unfold lookup
    rw [locate_join hfolder hname hthere, locate_join hfolder hname hthere']
    cases nameFault? folder name with
    | some fault => rfl
    | none =>
        have hentry : disk.entry? (name :: disk.spotOf folder) =
            next.entry? (name :: next.spotOf folder) := hsame
        dsimp only
        rw [hentry]
  rw [read, read, hlookup]

/-- A folder in which something is held is there. -/
theorem isDirectory_of_holds (htidy : disk.IsTidy folder) (hname : IsPlainName name)
    (hheld : disk.holds (folder / name) = true) : disk.isDirectory folder = true := by
  by_contra habsent
  rw [Bool.not_eq_true] at habsent
  have hdots := htidy.way.resolve_right (by simp [habsent])
  rw [holds_join_of_absent hfolder hname hdots habsent] at hheld
  cases hheld

end Folder

end ComponentTags.Disk
