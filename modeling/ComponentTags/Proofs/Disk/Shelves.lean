import ComponentTags.Proofs.Disk.Independence

/-!
Shelves. What is in a folder is told by the texts of its files, by name. Saving a file that can be saved
changes its text and nothing else, so a folder that lost files is as before once they are saved again.
-/

namespace ComponentTags.Disk

variable {disk other ready : Disk} {folder : Path} {name text : String}
  {texts : String → Option String} {files : List (String × String)}

/-- The system takes a file of that name in a folder, and its temporary sibling. -/
def Takes (folder : Path) (name : String) : Prop :=
  nameFault? folder name = none ∧ nameFault? folder (temporaryName plainMark name) = none

/-- A name that files keep, other than the names of temporary siblings. -/
structure IsLasting (name : String) : Prop where
  isPlainName : IsPlainName name
  ne_temporaryName : ∀ other, name ≠ temporaryName plainMark other

/-- A folder holds files with these texts, and nothing else. -/
structure Shelf (folder : Path) (disk : Disk) (texts : String → Option String) : Prop where
  isTidy : disk.IsTidy folder
  entry : ∀ name, disk.entry? (name :: disk.spotOf folder) =
    (texts name).map fun text => .file (Utf8.encode text.toList)
  clean : ∀ name, texts (temporaryName plainMark name) = none

/-- Two disks differ in the files of a folder at most. -/
structure SameAround (folder : Path) (disk other : Disk) : Prop where
  workingDirectory : other.workingDirectory = disk.workingDirectory
  entry : ∀ spot, (∀ name, spot ≠ name :: disk.spotOf folder) →
    other.entries[spot]? = disk.entries[spot]?

/-- What texts there are when some files are saved. -/
def shelve (files : List (String × String)) (texts : String → Option String) :
    String → Option String :=
  fun name => (files.lookup name).or (texts name)

theorem shelve_nil (texts : String → Option String) : shelve [] texts = texts := rfl

theorem shelve_cons (name text : String) (files : List (String × String))
    (texts : String → Option String) (other : String) :
    shelve ((name, text) :: files) texts other =
      if other = name then some text else shelve files texts other := by
  rw [shelve, List.lookup_cons]
  by_cases hother : other = name
  · simp [hother]
  · rw [beq_false_of_ne hother, if_neg hother]
    rfl

theorem lookup_eq_none (hname : name ∉ files.map Prod.fst) : files.lookup name = none := by
  rw [List.lookup_eq_none_iff]
  rintro ⟨other, text⟩ hfile
  simp only [bne_iff_ne, ne_eq]
  rintro rfl
  exact hname (List.mem_map_of_mem hfile)

theorem mem_of_lookup (h : files.lookup name = some text) : (name, text) ∈ files := by
  obtain ⟨front, back, rfl, -⟩ := List.lookup_eq_some_iff.1 h
  exact List.mem_append_right front List.mem_cons_self

/-- It makes no difference which one of the files is saved first. -/
theorem shelve_shelve (hname : name ∉ files.map Prod.fst) :
    shelve files (shelve [(name, text)] texts) = shelve ((name, text) :: files) texts := by
  funext other
  rw [shelve_cons]
  by_cases hother : other = name
  · subst hother
    rw [if_pos rfl, shelve, lookup_eq_none hname, Option.none_or, shelve_cons, if_pos rfl]
  · rw [if_neg hother, shelve, shelve_cons, if_neg hother]
    rfl

theorem SameAround.refl (folder : Path) (disk : Disk) : SameAround folder disk disk :=
  ⟨rfl, fun _ _ => rfl⟩

theorem SameAround.spotOf_eq (h : SameAround folder disk other) (path : Path) :
    other.spotOf path = disk.spotOf path :=
  spotOf_congr h.workingDirectory path

theorem SameAround.trans {next : Disk} (h : SameAround folder disk other)
    (h' : SameAround folder other next) : SameAround folder disk next where
  workingDirectory := h'.workingDirectory.trans h.workingDirectory
  entry spot hspot := by
    rw [h'.entry spot (by rwa [h.spotOf_eq]), h.entry spot hspot]

/-- **Disks are equal if they are the same around a folder that has the same texts on both.** -/
theorem SameAround.eq (h : SameAround folder disk other) (hshelf : Shelf folder disk texts)
    (hshelf' : Shelf folder other texts) : disk = other := by
  have hentries : disk.entries = other.entries := by
    refine Std.ExtTreeMap.ext_getElem? fun {spot} => ?_
    by_cases hspot : ∃ name, spot = name :: disk.spotOf folder
    · obtain ⟨name, rfl⟩ := hspot
      have hentry := hshelf'.entry name
      rw [h.spotOf_eq, ← hshelf.entry name] at hentry
      exact hentry.symm
    · exact (h.entry spot fun name heq => hspot ⟨name, heq⟩).symm
  have hdirectory := h.workingDirectory
  cases disk
  cases other
  simp_all

/-! ### Saving a file -/

namespace Shelf

section Put

variable (h : Shelf folder disk texts)

include h

theorem entry_ne_directory (name : String) :
    disk.entry? (name :: disk.spotOf folder) ≠ some .directory := by
  rw [h.entry name]
  cases texts name <;> simp

theorem entry_temporaryName (name : String) :
    disk.entry? (temporaryName plainMark name :: disk.spotOf folder) = none := by
  rw [h.entry, h.clean]
  rfl

theorem putFile_eq (htakes : Takes folder name) (content : List UInt8) :
    disk.putFile folder name content =
      (if disk.entry? (name :: disk.spotOf folder) = some (.file content) then disk
        else disk.replaced (disk.spotOf folder) name content, true) := by
  unfold putFile
  simp only [htakes.1, htakes.2, h.entry_ne_directory name, h.entry_temporaryName name,
    Option.isSome_none, reduceCtorEq, decide_false, Bool.or_false, Bool.false_eq_true, if_false]
  split <;> rfl

/-- The system takes the names of a file that could be saved as a new one. -/
theorem takes_of_putFile {content : List UInt8} (hnew : texts name = none)
    (hok : (disk.putFile folder name content).2 = true) : Takes folder name := by
  have hentry := h.entry name
  rw [hnew] at hentry
  unfold putFile at hok
  simp only [hentry, h.entry_temporaryName name, Option.map_none, reduceCtorEq, decide_false,
    Bool.or_false] at hok
  split at hok
  · cases hok
  · next hfault =>
      rw [if_neg (by simp)] at hok
      split at hok
      · cases hok
      · next hfault' => exact ⟨by simpa using hfault, by simpa using hfault'⟩

variable (hthere : disk.isDirectory folder = true) (hlasting : IsLasting name)
  (htakes : Takes folder name)

include htakes

theorem sameAround_putFile (content : List UInt8) :
    SameAround folder disk (disk.putFile folder name content).1 := by
  rw [h.putFile_eq htakes]
  dsimp only
  split
  · exact .refl folder disk
  · refine ⟨rfl, fun spot hspot => ?_⟩
    simp [replaced, put, erase, Std.ExtTreeMap.getElem?_insert, Std.ExtTreeMap.getElem?_erase,
      Ne.symm (hspot name), Ne.symm (hspot (temporaryName plainMark name))]

include hthere hlasting

theorem putFile (text : String) :
    Shelf folder (disk.putFile folder name (Utf8.encode text.toList)).1
      (shelve [(name, text)] texts) := by
  have hkeeps := disk.keepsDirectories_putFile folder name (Utf8.encode text.toList)
  have hspot := disk.spotOf_putFile folder folder name (Utf8.encode text.toList)
  refine ⟨⟨isTree_putFile h.isTidy.isTree hthere, .inr (isDirectory_mono hkeeps hthere)⟩,
    fun other => ?_, fun other => ?_⟩
  · rw [hspot, h.putFile_eq htakes, shelve_cons]
    by_cases hother : other = name
    · subst hother
      rw [if_pos rfl]
      split
      · next hsame => exact hsame
      · rw [entry_replaced, if_pos rfl]
        rfl
    · rw [if_neg hother, shelve_nil, ← h.entry other]
      split
      · rfl
      · rw [entry_replaced, if_neg (by simp [hother])]
        split
        · next heq => rw [heq, h.entry_temporaryName]
        · rfl
  · rw [shelve_cons, if_neg (hlasting.ne_temporaryName other).symm]
    exact h.clean other

end Put

section Save

theorem saveAll_cons (disk : Disk) (name text : String) :
    disk.saveAll folder ((name, text) :: files) =
      (((disk.save folder name text).1.saveAll folder files).1,
        (disk.save folder name text).2 && ((disk.save folder name text).1.saveAll folder files).2) :=
  rfl

variable (hfolder : folder.EndsPlain)

include hfolder

/-- A file that can be saved is saved on a disk where the folder is there. -/
theorem exists_ready (h : Shelf folder disk texts) (hname : IsPlainName name)
    (hok : (disk.save folder name text).2 = true) :
    ∃ ready : Disk, ready.isDirectory folder = true ∧ Shelf folder ready texts ∧
      disk.save folder name text = ready.putFile folder name (Utf8.encode text.toList) := by
  obtain ⟨ready, hthere, htidy, hentry, hsave⟩ := exists_ready_of_save hfolder h.isTidy hname hok
  exact ⟨ready, hthere, ⟨htidy, fun other => by rw [hentry, h.entry], h.clean⟩, hsave⟩

/-- **A new file that can be saved** is in the folder afterwards, which is there. -/
theorem save_new (h : Shelf folder disk texts) (hlasting : IsLasting name) (hnew : texts name = none)
    (hok : (disk.save folder name text).2 = true) :
    Takes folder name ∧ (disk.save folder name text).1.isDirectory folder = true ∧
      Shelf folder (disk.save folder name text).1 (shelve [(name, text)] texts) := by
  obtain ⟨ready, hthere, hready, hsave⟩ := h.exists_ready hfolder hlasting.isPlainName hok
  rw [hsave] at hok ⊢
  have htakes := hready.takes_of_putFile hnew hok
  exact ⟨htakes, isDirectory_mono (ready.keepsDirectories_putFile _ _ _) hthere,
    hready.putFile hthere hlasting htakes text⟩

/-- A file that the system takes can be saved in a folder that is there. -/
theorem save_again (h : Shelf folder disk texts) (hthere : disk.isDirectory folder = true)
    (hlasting : IsLasting name) (htakes : Takes folder name) (text : String) :
    (disk.save folder name text).2 = true ∧
      (disk.save folder name text).1.isDirectory folder = true ∧
      SameAround folder disk (disk.save folder name text).1 ∧
      Shelf folder (disk.save folder name text).1 (shelve [(name, text)] texts) := by
  rw [save_of_isDirectory hfolder hlasting.isPlainName hthere]
  refine ⟨by rw [h.putFile_eq htakes], ?_, h.sameAround_putFile htakes _,
    h.putFile hthere hlasting htakes text⟩
  exact isDirectory_mono (disk.keepsDirectories_putFile _ _ _) hthere

theorem saveAll_new (h : Shelf folder disk texts) (hlasting : ∀ file ∈ files, IsLasting file.1)
    (hnodup : (files.map Prod.fst).Nodup) (hnew : ∀ file ∈ files, texts file.1 = none)
    (hok : (disk.saveAll folder files).2 = true) :
    (∀ file ∈ files, Takes folder file.1) ∧
      (files ≠ [] → (disk.saveAll folder files).1.isDirectory folder = true) ∧
      Shelf folder (disk.saveAll folder files).1 (shelve files texts) := by
  induction files generalizing disk texts with
  | nil => exact ⟨nofun, nofun, h⟩
  | cons file files ih =>
      obtain ⟨name, text⟩ := file
      obtain ⟨hname, hnodup⟩ := List.nodup_cons.1 hnodup
      rw [saveAll_cons] at hok ⊢
      obtain ⟨hok, hrest⟩ := Bool.and_eq_true_iff.1 hok
      obtain ⟨htakes, hthere, hsaved⟩ :=
        h.save_new hfolder (hlasting _ List.mem_cons_self) (hnew _ List.mem_cons_self) hok
      have hstill : ∀ file ∈ files, shelve [(name, text)] texts file.1 = none := by
        intro file hfile
        have hne : file.1 ≠ name := fun heq => hname (List.mem_map.2 ⟨file, hfile, heq⟩)
        rw [shelve_cons, if_neg hne]
        exact hnew file (List.mem_cons_of_mem _ hfile)
      obtain ⟨htakesAll, hthereAll, hall⟩ := ih hsaved
        (fun file hfile => hlasting file (List.mem_cons_of_mem _ hfile)) hnodup hstill hrest
      rw [shelve_shelve hname] at hall
      refine ⟨fun file hfile => ?_, fun _ => ?_, hall⟩
      · rcases List.mem_cons.1 hfile with rfl | hfile
        · exact htakes
        · exact htakesAll file hfile
      · cases files with
        | nil => exact hthere
        | cons other files => exact hthereAll (List.cons_ne_nil _ _)

theorem saveAll_again (h : Shelf folder disk texts) (hthere : disk.isDirectory folder = true)
    (hlasting : ∀ file ∈ files, IsLasting file.1) (hnodup : (files.map Prod.fst).Nodup)
    (htakes : ∀ file ∈ files, Takes folder file.1) :
    (disk.saveAll folder files).2 = true ∧
      (disk.saveAll folder files).1.isDirectory folder = true ∧
      SameAround folder disk (disk.saveAll folder files).1 ∧
      Shelf folder (disk.saveAll folder files).1 (shelve files texts) := by
  induction files generalizing disk texts with
  | nil => exact ⟨rfl, hthere, .refl folder disk, h⟩
  | cons file files ih =>
      obtain ⟨name, text⟩ := file
      obtain ⟨hname, hnodup⟩ := List.nodup_cons.1 hnodup
      rw [saveAll_cons]
      obtain ⟨hok, hthere, haround, hsaved⟩ := h.save_again hfolder hthere
        (hlasting _ List.mem_cons_self) (htakes _ List.mem_cons_self) text
      obtain ⟨hokAll, hthereAll, haroundAll, hall⟩ := ih hsaved hthere
        (fun file hfile => hlasting file (List.mem_cons_of_mem _ hfile)) hnodup
        fun file hfile => htakes file (List.mem_cons_of_mem _ hfile)
      rw [shelve_shelve hname] at hall
      exact ⟨Bool.and_eq_true_iff.2 ⟨hok, hokAll⟩, hthereAll, haround.trans haroundAll, hall⟩

end Save

/-- Whether a file of the folder is there is told by its text. -/
theorem holds_eq (h : Shelf folder disk texts) (hfolder : folder.EndsPlain)
    (hthere : disk.isDirectory folder = true) (hname : IsPlainName name)
    (hfault : nameFault? folder name = none) :
    disk.holds (folder / name) = (texts name).isSome := by
  rw [Bool.eq_iff_iff, holds_join hfolder hname hthere, h.entry name]
  simp [hfault]

end Shelf

end ComponentTags.Disk
