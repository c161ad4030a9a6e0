import ComponentTags.Proofs.Disk.Trees

/-!
Folders. Writing a file in a folder that is there concerns two places alone, those of the file and of
its temporary sibling; what becomes of it is told by what stands there. If the folder is not there, the
first write that can makes sure of it.
-/

namespace ComponentTags.Disk

variable {disk other next : Disk} {folder : Path} {spot : Spot} {name : String}
  {content : List UInt8}

/-- Why the system does not take a name in a folder, whatever is on the disk. -/
def nameFault? (folder : Path) (name : String) : Option IoFault :=
  match textFault? (folder / name) with
  | some fault => some fault
  | none => if name.utf8ByteSize > maxNameLength then some .tooLong else none

theorem nameFault?_of_textFault {fault : IoFault} (h : textFault? (folder / name) = some fault) :
    nameFault? folder name = some fault := by
  unfold nameFault?
  rw [h]

/-- The disk after a file was replaced by way of its temporary sibling. -/
def replaced (disk : Disk) (spot : Spot) (name : String) (content : List UInt8) : Disk :=
  (disk.erase (temporaryName plainMark name :: spot)).put (name :: spot) (.file content)

/-- What becomes of the disk when a file is written into a folder that is there, and whether it could
be written. -/
def putFile (disk : Disk) (folder : Path) (name : String) (content : List UInt8) : Disk × Bool :=
  let spot := disk.spotOf folder
  if (nameFault? folder name).isSome || disk.entry? (name :: spot) = some .directory then
    (disk, false)
  else if disk.entry? (name :: spot) = some (.file content) then (disk, true)
  else if (nameFault? folder (temporaryName plainMark name)).isSome ||
      disk.entry? (temporaryName plainMark name :: spot) = some .directory then
    (disk, false)
  else (disk.replaced spot name content, true)

/-- Writes a text into a file of a folder, and says whether it could be written. -/
def save (folder : Path) (name text : String) (disk : Disk) : Disk × Bool :=
  ((disk.writeChanged (folder / name) text).1, (disk.writeChanged (folder / name) text).2.isOk)

/-! ### Places in a folder -/

theorem follow_append (spot : Spot) (front back : List String) :
    disk.follow spot (front ++ back) =
      match disk.follow spot front with
      | .error fault => .error fault
      | .ok found => disk.follow found back := by
  induction front generalizing spot with
  | nil => rfl
  | cons part front ih =>
      rw [List.cons_append, follow, follow]
      split
      · rfl
      · rfl
      · split
        · exact ih spot
        · split
          · exact ih spot.tail
          · split
            · rfl
            · exact ih (part :: spot)

section Folder

variable (hfolder : folder.EndsPlain) (hname : IsPlainName name)

include hfolder hname

theorem isParent_join : Path.IsParent folder (folder / name) :=
  (Path.parent_cases (hfolder.parent?_join hname)).resolve_left hfolder.text_ne

theorem dots_notMem_join (hdots : ".." ∉ folder.parts) : ".." ∉ (folder / name).parts := by
  rw [(hfolder.isAbsolute_join hname).2, List.mem_append, List.mem_singleton]
  rintro (hmem | heq)
  · exact hdots hmem
  · exact hname.ne_parent heq.symm

/-- A name in a folder that is there leads to its place in the folder. -/
theorem locate_join (hthere : disk.isDirectory folder = true) :
    disk.locate (folder / name) =
      match nameFault? folder name with
      | some fault => .error fault
      | none => .ok (name :: disk.spotOf folder) := by
  obtain ⟨spot, hspot, hentry⟩ := isDirectory_eq_true_iff.1 hthere
  obtain rfl := locate_eq_spotOf hspot
  unfold nameFault?
  cases hfault : textFault? (folder / name) with
  | some fault => exact locate_of_textFault hfault
  | none =>
      obtain ⟨rest, hrest⟩ := (isParent_join hfolder hname).text
      rw [locate_of_taken (textFault?_of_append hrest hfolder.text_ne hfault)] at hspot
      rw [locate_of_taken hfault, ← parent_origin (isParent_join hfolder hname),
        (hfolder.isAbsolute_join hname).2, follow_append, hspot]
      dsimp only
      rw [follow, hentry]
      dsimp only
      rw [if_neg (by simp [hname.ne_empty, hname.ne_here]), if_neg hname.ne_parent]
      split <;> rfl

/-- A name in a folder that is not there leads nowhere. -/
theorem locate_join_of_absent (hdots : ".." ∉ folder.parts)
    (habsent : disk.isDirectory folder = false) :
    ∃ fault, disk.locate (folder / name) = .error fault := by
  have hdots' := dots_notMem_join hfolder hname hdots
  have hparent := isParent_join hfolder hname
  cases hlocated : disk.locate (folder / name) with
  | error fault => exact ⟨fault, rfl⟩
  | ok spot =>
      exfalso
      cases hfault : textFault? (folder / name) with
      | some fault =>
          rw [locate_of_textFault hfault] at hlocated
          cases hlocated
      | none =>
          have hnot : ¬disk.Clear (disk.origin (folder / name)) (folder / name).names.dropLast := by
            intro hclear
            rw [parent_isDirectory hparent hdots' hfolder.text_ne hfault hclear] at habsent
            cases habsent
          rw [locate_of_taken hfault] at hlocated
          obtain ⟨-, hdirectory, hother⟩ := clear_of_follow hdots' hlocated
          by_cases hentry : disk.entry? spot = some .directory
          · exact hnot (clear_dropLast (hdirectory hentry) hparent.names_ne)
          · rcases hother hentry with hnone | ⟨front, last, hnames, hfront, -⟩
            · exact Path.parts_ne_nil _ hnone
            · have hnames' : (folder / name).names = front ++ [last] := hnames
              exact hnot (by rw [hnames', List.dropLast_concat]; exact hfront)

theorem holds_join (hthere : disk.isDirectory folder = true) :
    disk.holds (folder / name) = true ↔
      nameFault? folder name = none ∧ (disk.entry? (name :: disk.spotOf folder)).isSome := by
  rw [holds_iff, locate_join hfolder hname hthere]
  cases nameFault? folder name <;> simp

theorem holds_join_of_absent (hdots : ".." ∉ folder.parts)
    (habsent : disk.isDirectory folder = false) : disk.holds (folder / name) = false := by
  obtain ⟨fault, hfault⟩ := locate_join_of_absent hfolder hname hdots habsent
  refine Bool.eq_false_iff.2 fun hholds => ?_
  obtain ⟨spot, hspot, -⟩ := holds_iff.1 hholds
  rw [hfault] at hspot
  cases hspot

end Folder

theorem kind_ne_missing_of_textFault (hname : IsPlainName name) {fault : IoFault}
    (h : textFault? (folder / name) = some fault) : fault.kind ≠ .missing := by
  have hne := (Path.endsPlain_join folder hname).text_ne
  unfold textFault? at h
  split at h
  · obtain rfl := Option.some.inj h
    decide
  · split at h
    · obtain rfl := Option.some.inj h
      decide
    · cases h

theorem kind_ne_missing_of_nameFault (hname : IsPlainName name) {fault : IoFault}
    (h : nameFault? folder name = some fault) : fault.kind ≠ .missing := by
  unfold nameFault? at h
  split at h
  · next fault' hfault =>
      obtain rfl := Option.some.inj h
      exact kind_ne_missing_of_textFault hname hfault
  · split at h
    · obtain rfl := Option.some.inj h
      decide
    · cases h

/-- A name that is too long has a temporary sibling that is too long. -/
theorem isSome_nameFault_temporaryName (hfault : textFault? (folder / name) = none)
    (h : (nameFault? folder name).isSome) :
    (nameFault? folder (temporaryName plainMark name)).isSome := by
  unfold nameFault? at h ⊢
  rw [hfault] at h
  split
  · rfl
  · have hlong : name.utf8ByteSize > maxNameLength := by
      by_contra hshort
      simp [hshort] at h
    have hlonger : (temporaryName plainMark name).utf8ByteSize > maxNameLength := by
      simp only [temporaryName, String.utf8ByteSize_append]
      omega
    rw [if_pos hlonger]
    rfl

/-! ### Writing into a folder that is there -/

theorem replaced_eq (spot temporary : Spot) (content : List UInt8) :
    ((((disk.put temporary (.file [])).put temporary (.file content)).erase temporary).put
      (name :: spot) (.file content)) = (disk.erase temporary).put (name :: spot) (.file content) := by
  have hentries : (((disk.entries.insert temporary (.file [])).insert temporary
      (.file content)).erase temporary).insert (name :: spot) (.file content) =
        (disk.entries.erase temporary).insert (name :: spot) (.file content) := by
    refine Std.ExtTreeMap.ext_getElem? fun place => ?_
    simp only [Std.ExtTreeMap.getElem?_insert, Std.ExtTreeMap.getElem?_erase]
    split
    · rfl
    · split <;> simp_all
  simp only [put, erase, hentries]

section Folder

variable (hfolder : folder.EndsPlain) (hname : IsPlainName name)

include hfolder hname

theorem temporaryPath_join :
    temporaryPath plainMark (folder / name) = folder / temporaryName plainMark name := by
  have hparts := (hfolder.isAbsolute_join hname).2
  rw [temporaryPath_eq hname hparts, Path.withFileName, Path.fileName?_of_parts hname hparts,
    hfolder.parent?_join hname]

theorem ensureParent_join : disk.ensureParent (folder / name) = disk.ensureDirectory folder := by
  unfold ensureParent
  rw [hfolder.parent?_join hname]
  dsimp only
  rw [if_neg hfolder.text_ne]

theorem rename_join (temporary : Spot) (content : List UInt8) {source : Disk}
    (hthere : source.isDirectory folder = true)
    (hfault : nameFault? folder name = none)
    (hentry : source.entry? (name :: source.spotOf folder) ≠ some .directory) :
    source.rename temporary content (folder / name) =
      .ok ((source.erase temporary).put (name :: source.spotOf folder) (.file content)) := by
  have htrim := withoutSlashes_eq (.inl (Path.endsPlain_join folder hname).getLast?_text)
  have hlast : (folder / name).parts.getLast? = some name := by
    rw [(hfolder.isAbsolute_join hname).2, List.getLast?_concat]
  unfold rename
  dsimp only
  rw [htrim, hlast, locate_join hfolder hname hthere, hfault]
  split
  · next heq => cases heq
  · next heq => exact absurd (Option.some.inj heq) hname.ne_empty
  · next heq => exact absurd (Option.some.inj heq) hname.ne_here
  · next heq => exact absurd (Option.some.inj heq) hname.ne_parent
  · dsimp only
    rw [if_neg (by simp), if_neg hentry]

/-- A file is not replaced if its temporary sibling cannot be made. -/
theorem replaceBeside_of_temporary (hthere : disk.isDirectory folder = true)
    (h : ((nameFault? folder (temporaryName plainMark name)).isSome ||
      disk.entry? (temporaryName plainMark name :: disk.spotOf folder) = some .directory) = true) :
    ((disk.replaceBeside none plainMark (folder / name) content).disk,
      (disk.replaceBeside none plainMark (folder / name) content).outcome.isOk) = (disk, false) := by
  have hlocated := locate_join hfolder (isPlainName_temporaryName_plainMark hname) hthere
  rw [← temporaryPath_join hfolder hname] at hlocated
  obtain ⟨fault, hcreated⟩ : ∃ fault,
      disk.createFile (temporaryPath plainMark (folder / name)) = .error fault := by
    unfold createFile
    rw [hlocated]
    cases hfault : nameFault? folder (temporaryName plainMark name) with
    | some fault => exact ⟨fault, rfl⟩
    | none =>
        rw [hfault] at h
        exact ⟨.isDirectory, if_pos (by simpa using h)⟩
  obtain ⟨hdisk, houtcome⟩ := replaceBeside_of_createFile_error content hcreated
  rw [hdisk, houtcome]

/-- Replacing a file in a folder that is there. -/
theorem replaceBeside_join (content : List UInt8) (hthere : disk.isDirectory folder = true)
    (hfault : nameFault? folder name = none)
    (hentry : disk.entry? (name :: disk.spotOf folder) ≠ some .directory) :
    ((disk.replaceBeside none plainMark (folder / name) content).disk,
      (disk.replaceBeside none plainMark (folder / name) content).outcome.isOk) =
      if (nameFault? folder (temporaryName plainMark name)).isSome ||
          disk.entry? (temporaryName plainMark name :: disk.spotOf folder) = some .directory then
        (disk, false)
      else (disk.replaced (disk.spotOf folder) name content, true) := by
  split
  · next hbusy => exact replaceBeside_of_temporary hfolder hname hthere hbusy
  · next hfree =>
      have hlocated := locate_join hfolder (isPlainName_temporaryName_plainMark hname) hthere
      rw [← temporaryPath_join hfolder hname] at hlocated
      simp only [Bool.or_eq_true, decide_eq_true_eq, not_or, Bool.not_eq_true,
        Option.isSome_eq_false_iff, Option.isNone_iff_eq_none] at hfree
      obtain ⟨htemporaryFault, hdirectory⟩ := hfree
      rw [htemporaryFault] at hlocated
      have hcreated : disk.createFile (temporaryPath plainMark (folder / name)) =
          .ok (disk.put (temporaryName plainMark name :: disk.spotOf folder) (.file []),
            temporaryName plainMark name :: disk.spotOf folder) := by
        unfold createFile
        rw [hlocated]
        exact if_neg hdirectory
      have hne : temporaryName plainMark name :: disk.spotOf folder ≠
          name :: disk.spotOf folder := by
        intro heq
        exact name_ne_temporaryName plainMark name (List.cons.inj heq).1.symm
      generalize hwritten : (disk.put (temporaryName plainMark name :: disk.spotOf folder)
        (.file [])).put (temporaryName plainMark name :: disk.spotOf folder)
          (.file content) = written
      have hkeeps : disk.KeepsDirectories written := by
        rw [← hwritten]
        exact ((agreesOff_put_file [] hdirectory).trans
          (agreesOff_put_file content (by simp [entry_put]))).toKeepsDirectories
      have hspot := spotOf_congr hkeeps.workingDirectory folder
      have hfree : written.entry? (name :: written.spotOf folder) ≠ some .directory := by
        rw [hspot, ← hwritten, entry_put, entry_put, if_neg (fun heq => hne heq.1.symm),
          if_neg (fun heq => hne heq.1.symm)]
        exact hentry
      have hrenamed := rename_join hfolder hname (temporaryName plainMark name :: disk.spotOf folder)
        content (isDirectory_mono hkeeps hthere) hfault hfree
      rw [hspot, ← hwritten, replaced_eq] at hrenamed
      obtain ⟨hdisk, houtcome⟩ := replaceBeside_of_rename_ok hcreated hrenamed
      rw [hdisk, houtcome, replaced]

/-- A file is replaced once there is its folder. -/
theorem write_join (disk : Disk) (content : List UInt8) :
    ((disk.write (folder / name) content).1, (disk.write (folder / name) content).2.isOk) =
      if (disk.ensureDirectory folder).2.isOk then
        (((disk.ensureDirectory folder).1.replaceBeside none plainMark (folder / name) content).disk,
          ((disk.ensureDirectory folder).1.replaceBeside none plainMark (folder / name)
            content).outcome.isOk)
      else ((disk.ensureDirectory folder).1, false) := by
  unfold write replace
  rw [ensureParent_join hfolder hname]
  cases disk.ensureDirectory folder with
  | mk next outcome => cases outcome <;> rfl

end Folder

/-- A file that holds another text, or none, is replaced. -/
theorem save_eq (folder : Path) (name text : String) (disk : Disk) :
    disk.save folder name text =
      match disk.read (folder / name) with
      | .ok found =>
          if found = Utf8.encode text.toList then (disk, true)
          else ((disk.write (folder / name) (Utf8.encode text.toList)).1,
            (disk.write (folder / name) (Utf8.encode text.toList)).2.isOk)
      | .error source =>
          if source.kind = .missing then
            ((disk.write (folder / name) (Utf8.encode text.toList)).1,
              (disk.write (folder / name) (Utf8.encode text.toList)).2.isOk)
          else (disk, false) := by
  unfold save writeChanged
  dsimp only
  cases disk.read (folder / name) with
  | ok found =>
      dsimp only
      split
      · rfl
      · cases disk.write (folder / name) (Utf8.encode text.toList) with
        | mk next outcome => cases outcome <;> rfl
  | error source =>
      dsimp only
      split
      · cases disk.write (folder / name) (Utf8.encode text.toList) with
        | mk next outcome => cases outcome <;> rfl
      · rfl

section Folder

variable (hfolder : folder.EndsPlain) (hname : IsPlainName name)

include hfolder hname

/-- **Writing into a folder that is there** comes to putting the file into its place. -/
theorem save_of_isDirectory (hthere : disk.isDirectory folder = true) (text : String) :
    disk.save folder name text = disk.putFile folder name (Utf8.encode text.toList) := by
  have hlocated := locate_join hfolder hname hthere
  have hreplaced := replaceBeside_join hfolder hname (Utf8.encode text.toList) hthere
  have hensured : (disk, (.ok () : Except Failure Unit)).2.isOk = true := rfl
  rw [save_eq, write_join hfolder hname, ensureDirectory_of_isDirectory hthere, if_pos hensured]
  unfold putFile read lookup
  rw [hlocated]
  cases hfault : nameFault? folder name with
  | some fault =>
      dsimp only
      rw [if_neg (kind_ne_missing_of_nameFault hname hfault)]
      rfl
  | none =>
      dsimp only
      cases hentry : disk.entry? (name :: disk.spotOf folder) with
      | none =>
          dsimp only
          rw [if_pos (by decide), hreplaced hfault (by simp [hentry])]
          simp
      | some entry =>
          cases entry with
          | directory =>
              dsimp only
              rw [if_neg (by decide)]
              simp
          | file found =>
              dsimp only
              rw [hreplaced hfault (by simp [hentry])]
              simp

end Folder

end ComponentTags.Disk
