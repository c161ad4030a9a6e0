import ComponentTags.Proofs.Disk.Shelves

/-!
What writing leaves. Whatever the paths are and whether or not the files could be written,
directories stay, no file comes up or changes but those that were to be written, and no file is lost
but under the name of a temporary one.
-/

namespace ComponentTags

theorem isPlainName_of_mem_parts {parts : List String} {name : String}
    (hparts : ∀ part ∈ parts, '/' ∉ part.toList)
    (h : PathStep.name name ∈ parts.filterMap PathStep.ofPart?) : IsPlainName name := by
  obtain ⟨part, hmem, hpart⟩ := List.mem_filterMap.1 h
  have hseparator := hparts part hmem
  unfold PathStep.ofPart? at hpart
  split at hpart
  · cases hpart
  · next hidle =>
      split at hpart
      · cases hpart
      · next hup =>
          cases hpart
          simp only [Bool.or_eq_true, decide_eq_true_eq, not_or] at hidle
          exact ⟨hseparator, hidle.1, hidle.2, hup⟩

theorem isPlainName_of_fileName? {path : Path} {name : String} (h : path.fileName? = some name) :
    IsPlainName name := by
  have hmem : PathStep.name name ∈ path.steps := by
    unfold Path.fileName? at h
    split at h
    · next hlast =>
        cases h
        exact List.mem_of_getLast? hlast
    · cases h
  have hparts : ∀ part ∈ path.parts, '/' ∉ part.toList := fun part => path.notMem_of_mem_parts
  unfold Path.steps at hmem
  split at hmem
  · exact isPlainName_of_mem_parts hparts (by simpa using hmem)
  · split at hmem
    · next rest hhere =>
        rw [hhere] at hparts
        exact isPlainName_of_mem_parts
          (fun part hpart => hparts part (List.mem_cons_of_mem _ hpart)) (by simpa using hmem)
    · exact isPlainName_of_mem_parts hparts hmem

namespace Disk

/-- Whether a place has the name of a temporary file. -/
def IsTemporary (spot : Spot) : Prop :=
  ∃ name, spot.head? = some (temporaryName plainMark name)

/-- A path that ends with a name that files keep. -/
def EndsLasting (path : Path) : Prop :=
  ∃ front last, path.parts = front ++ [last] ∧ IsLasting last

/-- What is left of one disk after some files were written, or were to be. -/
structure Leaves (files : List (Path × List UInt8)) (disk other : Disk) : Prop
    extends KeepsDirectories disk other where
  made : ∀ spot content, other.entry? spot = some (.file content) →
    disk.entry? spot = some (.file content) ∨
      ∃ file ∈ files, spot = disk.spotOf file.1 ∧ content = file.2
  kept : ∀ spot content, disk.entry? spot = some (.file content) → ¬IsTemporary spot →
    ∃ content, other.entry? spot = some (.file content)

namespace Leaves

variable {files more : List (Path × List UInt8)} {disk next last : Disk} {path : Path}
  {content : List UInt8}

theorem refl (files : List (Path × List UInt8)) (disk : Disk) : Leaves files disk disk where
  workingDirectory := rfl
  entry _ h := h
  made _ _ h := .inl h
  kept _ content h _ := ⟨content, h⟩

theorem trans (h : Leaves files disk next) (h' : Leaves more next last) :
    Leaves (files ++ more) disk last where
  workingDirectory := h'.workingDirectory.trans h.workingDirectory
  entry spot hspot := h'.entry spot (h.entry spot hspot)
  made spot content hfile := by
    rcases h'.made spot content hfile with hold | ⟨file, hfile, hspot, hcontent⟩
    · refine (h.made spot content hold).imp_right ?_
      rintro ⟨file, hfile, hrest⟩
      exact ⟨file, List.mem_append_left _ hfile, hrest⟩
    · rw [spotOf_congr h.workingDirectory] at hspot
      exact .inr ⟨file, List.mem_append_right _ hfile, hspot, hcontent⟩
  kept spot content hfile hspot := by
    obtain ⟨content', hkept⟩ := h.kept spot content hfile hspot
    exact h'.kept spot content' hkept hspot

theorem of_agreesOff (files : List (Path × List UInt8)) (h : disk.AgreesOff [] next) :
    Leaves files disk next where
  toKeepsDirectories := h.toKeepsDirectories
  made spot content hfile := .inl ((h.file_iff (by simp)).1 hfile)
  kept spot content hfile _ := ⟨content, (h.file_iff (by simp)).2 hfile⟩

theorem after (h : Leaves files next last) (hstart : disk.AgreesOff [] next) :
    Leaves files disk last :=
  (of_agreesOff [] hstart).trans h

/-- A path that leads to a file that is not a temporary one does so afterwards. -/
theorem read (h : Leaves files disk next) (hpath : EndsLasting path)
    (hread : disk.read path = .ok content) : ∃ content, next.read path = .ok content := by
  obtain ⟨parts, name, hparts, hlasting⟩ := hpath
  obtain ⟨spot, hspot, hentry⟩ := read_eq_ok_iff.1 hread
  obtain ⟨rest, hrest⟩ := disk.spotOf_eq_cons hlasting.isPlainName hparts
  have hplace : ¬IsTemporary spot := by
    rintro ⟨other, hhead⟩
    rw [locate_eq_spotOf hspot, hrest] at hhead
    exact hlasting.ne_temporaryName other (Option.some.inj hhead)
  obtain ⟨content', hkept⟩ := h.kept spot content hentry hplace
  exact ⟨content', read_eq_ok_iff.2 ⟨spot, h.locate hspot, hkept⟩⟩

theorem holds (h : Leaves files disk next) (hpath : EndsLasting path)
    (hheld : disk.holds path = true) : next.holds path = true := by
  obtain ⟨spot, hspot, hentry⟩ := holds_iff.1 hheld
  obtain ⟨entry, hentry⟩ := Option.isSome_iff_exists.1 hentry
  cases entry with
  | directory =>
      exact holds_iff.2 ⟨spot, h.locate hspot, by rw [h.entry spot hentry]; rfl⟩
  | file content =>
      obtain ⟨content', hread⟩ := h.read hpath (read_eq_ok_iff.2 ⟨spot, hspot, hentry⟩)
      exact holds_of_read hread

end Leaves

variable {disk next : Disk} {path : Path} {content : List UInt8}

theorem locate_ok_of_createFile {spot : Spot} (h : disk.createFile path = .ok (next, spot)) :
    spot = disk.spotOf path ∧ disk.entry? spot ≠ some .directory ∧
      next = disk.put spot (.file []) := by
  unfold createFile at h
  split at h
  · cases h
  · next place hplace =>
      split at h
      · cases h
      · next hentry =>
          cases h
          exact ⟨locate_eq_spotOf hplace, hentry, rfl⟩

/-- A file only takes a name at the end of a path. -/
theorem endsPlain_of_rename {source : Spot} (h : disk.rename source content path = .ok next) :
    path.EndsPlain := by
  unfold rename at h
  dsimp only at h
  split at h
  · cases h
  · cases h
  · cases h
  · cases h
  · next hlast hempty hhere hup =>
      split at h
      · cases h
      · split at h
        · cases h
        · next hpath =>
            rw [Classical.not_not.1 hpath] at hlast hempty hhere hup
            cases hparts : path.parts.getLast? with
            | none => exact absurd hparts hlast
            | some last =>
                obtain ⟨front, hfront⟩ := List.getLast?_eq_some_iff.1 hparts
                have hmem : last ∈ path.parts := List.mem_of_getLast? hparts
                refine ⟨front, last, hfront, path.notMem_of_mem_parts hmem, ?_, ?_, ?_⟩
                · rintro rfl
                  exact hempty hparts
                · rintro rfl
                  exact hhere hparts
                · rintro rfl
                  exact hup hparts

theorem isPlainName_getD_fileName? (path : Path) :
    IsPlainName (path.fileName?.getD "artifact") := by
  cases hfile : path.fileName? with
  | none => exact ⟨by decide, by decide, by decide, by decide⟩
  | some name => exact isPlainName_of_fileName? hfile

theorem exists_spotOf_temporaryPath {mark : String} (hmark : '/' ∉ mark.toList) (disk : Disk)
    (path : Path) :
    ∃ rest, disk.spotOf (temporaryPath mark path) =
      temporaryName mark (path.fileName?.getD "artifact") :: rest := by
  have hplain := isPlainName_temporaryName hmark (isPlainName_getD_fileName? path)
  obtain ⟨parts, hparts⟩ := path.exists_parts_withFileName hplain
  exact disk.spotOf_eq_cons hplain hparts

theorem isTemporary_temporaryPath (disk : Disk) (path : Path) :
    IsTemporary (disk.spotOf (temporaryPath plainMark path)) := by
  obtain ⟨rest, hrest⟩ := exists_spotOf_temporaryPath notMem_plainMark disk path
  exact ⟨_, by rw [hrest]; rfl⟩

variable {started final : Disk} {spot : Spot} {text : String} {files : List (Path × String)}

/-- The disk on which a file was made and taken away again. -/
theorem leaves_erased (files : List (Path × List UInt8)) (hspot : IsTemporary spot)
    (hentry : disk.entry? spot ≠ some .directory) :
    Leaves files disk (((disk.put spot (.file [])).put spot (.file content)).erase spot) := by
  have hsame : ∀ place, place ≠ spot → Disk.entry?
      (((disk.put spot (.file [])).put spot (.file content)).erase spot) place =
        disk.entry? place := by
    intro place hne
    rw [entry_erase, if_neg (fun h => hne h.1), entry_put, if_neg (fun h => hne h.1), entry_put,
      if_neg (fun h => hne h.1)]
  refine ⟨⟨rfl, ?_⟩, ?_, ?_⟩
  · intro place hplace
    rw [hsame place (by rintro rfl; exact hentry hplace), hplace]
  · intro place found hplace
    by_cases heq : place = spot
    · subst heq
      rw [entry_erase] at hplace
      split at hplace
      · cases hplace
      · next hroot =>
          obtain rfl : place = [] := by simpa using hroot
          obtain ⟨name, hhead⟩ := hspot
          cases hhead
    · rw [hsame place heq] at hplace
      exact .inl hplace
  · intro place found hplace htemporary
    rw [hsame place (by rintro rfl; exact htemporary hspot)]
    exact ⟨found, hplace⟩

theorem leaves_put (hspot : spot = disk.spotOf path) (hentry : disk.entry? spot ≠ some .directory) :
    Leaves [(path, content)] disk (disk.put spot (.file content)) := by
  refine ⟨⟨rfl, ?_⟩, ?_, ?_⟩
  · intro place hplace
    have hne : place ≠ spot := by
      rintro rfl
      exact hentry hplace
    rw [entry_put, if_neg (fun h => hne h.1), hplace]
  · intro place found hplace
    rw [entry_put] at hplace
    split at hplace
    · next heq =>
        cases hplace
        exact .inr ⟨_, List.mem_singleton_self _, heq.1.trans hspot, rfl⟩
    · exact .inl hplace
  · intro place found hplace _
    rw [entry_put]
    split
    · exact ⟨content, rfl⟩
    · exact ⟨found, hplace⟩

theorem leaves_replaceBeside (disk : Disk) (path : Path) (content : List UInt8) :
    Leaves [(path, content)] disk (disk.replaceBeside none plainMark path content).disk := by
  cases hcreated : disk.createFile (temporaryPath plainMark path) with
  | error fault =>
      rw [(replaceBeside_of_createFile_error content hcreated).1]
      exact .refl _ disk
  | ok created =>
      obtain ⟨started, source⟩ := created
      obtain ⟨hsource, hentry, rfl⟩ := locate_ok_of_createFile hcreated
      have htemporary : IsTemporary source := hsource ▸ isTemporary_temporaryPath disk path
      have herased : Leaves [] disk
          (((disk.put source (.file [])).put source (.file content)).erase source) :=
        leaves_erased [] htemporary hentry
      cases hrenamed : ((disk.put source (.file [])).put source (.file content)).rename source
          content path with
      | error fault =>
          rw [(replaceBeside_of_rename_error hcreated hrenamed).1]
          exact leaves_erased _ htemporary hentry
      | ok final =>
          obtain ⟨front, name, hparts, hname⟩ := endsPlain_of_rename hrenamed
          obtain ⟨rest, hplace, htarget, rfl⟩ := rename_ok hname hparts hrenamed
          rw [(replaceBeside_of_rename_ok hcreated hrenamed).1]
          have hspot := locate_eq_spotOf hplace
          refine herased.trans (leaves_put hspot ?_)
          rw [entry_erase]
          split
          · nofun
          · exact htarget

theorem leaves_write (disk : Disk) (path : Path) (content : List UInt8) :
    Leaves [(path, content)] disk (disk.write path content).1 := by
  have hparent := agreesOff_ensureParent disk path
  unfold write replace
  cases houtcome : disk.ensureParent path with
  | mk ready outcome =>
      rw [houtcome] at hparent
      cases outcome with
      | error failure => exact .of_agreesOff _ hparent
      | ok done => exact (leaves_replaceBeside ready path content).after hparent

theorem leaves_writeChanged (disk : Disk) (path : Path) (text : String) :
    Leaves [(path, Utf8.encode text.toList)] disk (disk.writeChanged path text).1 := by
  rcases writeChanged_cases disk path text with ⟨hsame, -⟩ | ⟨hdisk, -⟩
  · rw [hsame]
    exact .refl _ disk
  · rw [hdisk]
    exact leaves_write disk path _

/-- The bytes that texts are written as. -/
def contents (files : List (Path × String)) : List (Path × List UInt8) :=
  files.map fun file => (file.1, Utf8.encode file.2.toList)

theorem leaves_writeAll (disk : Disk) (files : List (Path × String)) :
    Leaves (contents files) disk (disk.writeAll files).1 := by
  induction files generalizing disk with
  | nil => exact .refl [] disk
  | cons file files ih =>
      obtain ⟨path, text⟩ := file
      rw [writeAll_cons]
      exact (leaves_writeChanged disk path text).trans (ih _)

theorem endsPlain_of_write (h : (disk.write path content).2.isOk = true) : path.EndsPlain := by
  unfold write replace at h
  cases houtcome : disk.ensureParent path with
  | mk ready outcome =>
      rw [houtcome] at h
      cases outcome with
      | error failure => cases h
      | ok done =>
          cases hcreated : ready.createFile (temporaryPath plainMark path) with
          | error fault =>
              dsimp only at h
              rw [(replaceBeside_of_createFile_error content hcreated).2] at h
              cases h
          | ok created =>
              obtain ⟨started, source⟩ := created
              cases hrenamed : (started.put source (.file content)).rename source content path with
              | error fault =>
                  dsimp only at h
                  rw [(replaceBeside_of_rename_error hcreated hrenamed).2] at h
                  cases h
              | ok final => exact endsPlain_of_rename hrenamed

/-- A file that was written, or held the text before, holds it. -/
theorem read_of_writeChanged (h : (disk.writeChanged path text).2.isOk = true) :
    (disk.writeChanged path text).1.read path = .ok (Utf8.encode text.toList) := by
  by_cases hplain : path.EndsPlain
  · obtain ⟨front, name, hparts, hname⟩ := hplain
    exact (attempt_writeChanged hname hparts disk text).read h
  · rcases writeChanged_cases disk path text with ⟨hsame, hread⟩ | ⟨-, hok⟩
    · rw [hsame]
      exact hread h
    · exact absurd (endsPlain_of_write (hok.symm.trans h)) hplain

theorem isOk_writeAll_cons (h : (disk.writeAll ((path, text) :: files)).2.isOk = true) :
    (disk.writeChanged path text).2.isOk = true ∧
      ((disk.writeChanged path text).1.writeAll files).2.isOk = true := by
  rw [writeAll] at h
  generalize disk.writeChanged path text = first at h ⊢
  obtain ⟨next, outcome⟩ := first
  cases outcome with
  | error failure => cases h
  | ok written =>
      refine ⟨rfl, ?_⟩
      dsimp only at h ⊢
      generalize next.writeAll files = others at h ⊢
      obtain ⟨last, outcome⟩ := others
      cases outcome with
      | error failure => cases h
      | ok count => rfl

/-- When all files could be written, the path of each leads to a file. -/
theorem exists_read_of_writeAll (hfiles : ∀ file ∈ files, EndsLasting file.1)
    (h : (disk.writeAll files).2.isOk = true) {file : Path × String} (hmem : file ∈ files) :
    ∃ content, (disk.writeAll files).1.read file.1 = .ok content := by
  induction files generalizing disk with
  | nil => cases hmem
  | cons first rest ih =>
      obtain ⟨path, text⟩ := first
      obtain ⟨hfirst, hrest⟩ := isOk_writeAll_cons h
      rw [writeAll_cons]
      rcases List.mem_cons.1 hmem with rfl | hlater
      · exact (leaves_writeAll _ rest).read (hfiles _ List.mem_cons_self)
          (read_of_writeChanged hfirst)
      · exact ih (fun file hfile => hfiles file (List.mem_cons_of_mem _ hfile)) hrest hlater

end Disk

end ComponentTags
