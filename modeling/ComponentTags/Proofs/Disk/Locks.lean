import ComponentTags.Proofs.Disk.Folders
import ComponentTags.Proofs.Disk.Siblings

/-!
Locks. A path that leads somewhere leads through its parent, whatever its steps are. So a document whose
lock is there can be locked again without a change, and it could be reached before it was written if it
could be written; and writing it leaves its lock as it is.
-/

namespace ComponentTags

namespace Disk

variable {disk other next : Disk} {path parent folder document : Path} {spot found : Spot}
  {parts : List String} {name : String} {content : List UInt8}

/-! ### Through the parent -/

theorem follow_idle (hidle : isIdlePart name = true) (hentry : disk.entry? spot = some .directory) :
    disk.follow spot (name :: parts) = disk.follow spot parts := by
  rw [follow, hentry]
  dsimp only
  rw [if_pos (by simpa [isIdlePart] using hidle)]

theorem follow_step (hidle : ¬isIdlePart name = true) (hentry : disk.entry? spot = some .directory) :
    disk.follow spot (name :: parts) =
      if name = ".." then disk.follow spot.tail parts
      else if name.utf8ByteSize > maxNameLength then .error .tooLong
      else disk.follow (name :: spot) parts := by
  rw [follow, hentry]
  dsimp only
  rw [if_neg (by simpa [isIdlePart] using hidle)]

/-- A path is followed from a directory, unless it ends where it starts. -/
theorem entry_of_follow (hne : parts ≠ []) (h : disk.follow spot parts = .ok found) :
    disk.entry? spot = some .directory := by
  obtain ⟨part, rest, rfl⟩ := List.exists_cons_of_ne_nil hne
  rw [follow] at h
  split at h
  · cases h
  · cases h
  · assumption

/-- The idle parts of a path lead nowhere else. -/
theorem follow_names (h : disk.follow spot parts = .ok found) :
    disk.follow spot (parts.filter fun part => !isIdlePart part) = .ok found := by
  induction parts generalizing spot with
  | nil => exact h
  | cons part parts ih =>
      have hentry := entry_of_follow (List.cons_ne_nil _ _) h
      by_cases hidle : isIdlePart part = true
      · rw [List.filter_cons_of_neg (by simp [hidle])]
        rw [follow_idle hidle hentry] at h
        exact ih h
      · rw [List.filter_cons_of_pos (by simpa using hidle)]
        rw [follow_step hidle hentry] at h ⊢
        split_ifs at h ⊢
        · exact ih h
        · exact ih h

/-- On the way to a directory idle parts do no harm. -/
theorem follow_of_names
    (h : disk.follow spot (parts.filter fun part => !isIdlePart part) = .ok found)
    (hfound : disk.entry? found = some .directory) : disk.follow spot parts = .ok found := by
  induction parts generalizing spot with
  | nil => exact h
  | cons part parts ih =>
      by_cases hidle : isIdlePart part = true
      · rw [List.filter_cons_of_neg (by simp [hidle])] at h
        have hentry : disk.entry? spot = some .directory := by
          by_cases hnames : (parts.filter fun part => !isIdlePart part) = []
          · rw [hnames] at h
            rwa [Except.ok.inj h]
          · exact entry_of_follow hnames h
        rw [follow_idle hidle hentry]
        exact ih h
      · rw [List.filter_cons_of_pos (by simpa using hidle)] at h
        have hentry := entry_of_follow (List.cons_ne_nil _ _) h
        rw [follow_step hidle hentry] at h ⊢
        split_ifs at h ⊢
        · exact ih h
        · exact ih h

/-- What the text of a path begins with, and leads to where the path leads but for its last step, is a
directory if the path leads somewhere. -/
theorem isDirectory_of_locate (habsolute : folder.isAbsolute = path.isAbsolute)
    (hnames : path.names = folder.names ++ [name]) (htext : ∃ rest, path.text = folder.text ++ rest)
    (hne : folder.text ≠ "") (h : disk.locate path = .ok spot) : disk.isDirectory folder = true := by
  obtain ⟨rest, hrest⟩ := htext
  cases hfault : textFault? path with
  | some fault =>
      rw [locate_of_textFault hfault] at h
      cases h
  | none =>
      rw [locate_of_taken hfault] at h
      have hfollowed : disk.follow (disk.origin path) path.names = .ok spot := follow_names h
      rw [hnames, follow_append] at hfollowed
      cases hfolder : disk.follow (disk.origin path) folder.names with
      | error fault =>
          rw [hfolder] at hfollowed
          cases hfollowed
      | ok place =>
          rw [hfolder] at hfollowed
          have hentry := entry_of_follow (List.cons_ne_nil _ _) hfollowed
          refine isDirectory_eq_true_iff.2 ⟨place, ?_, hentry⟩
          rw [locate_of_taken (textFault?_of_append hrest hne hfault), origin, habsolute, ← origin]
          exact follow_of_names hfolder hentry

theorem isDirectory_of_locate_parent (hparent : path.parent? = some parent)
    (hne : parent.text ≠ "") (h : disk.locate path = .ok spot) : disk.isDirectory parent = true := by
  have hway := (Path.parent_cases hparent).resolve_left hne
  have hnames : path.names = parent.names ++ [path.names.getLast hway.names_ne] := by
    rw [hway.names]
    exact (List.dropLast_append_getLast hway.names_ne).symm
  exact isDirectory_of_locate hway.isAbsolute hnames hway.text hne h

end Disk

/-- A name that is put at the end of a path is one more step, behind the text of the path. -/
theorem Path.names_join (folder : Path) {name : String} (hname : IsPlainName name)
    (hne : folder.text ≠ "") :
    (folder / name).isAbsolute = folder.isAbsolute ∧
      (folder / name).names = folder.names ++ [name] ∧
      ∃ rest, (folder / name).text = folder.text ++ rest := by
  have hidle := isIdlePart_of_isPlainName hname
  change (folder.join ⟨name⟩).isAbsolute = _ ∧ (folder.join ⟨name⟩).names = _ ∧
    ∃ rest, (folder.join ⟨name⟩).text = _
  unfold join
  rw [isAbsolute_of_isPlainName hname, Bool.false_or, if_neg (by simpa using hne)]
  by_cases hlast : folder.text.toList.getLast? = some '/'
  · obtain ⟨front, hfront⟩ := List.getLast?_eq_some_iff.1 hlast
    have htext : (folder.text ++ name).toList = front ++ '/' :: name.toList := by simp [hfront]
    have habsolute : (⟨folder.text ++ name⟩ : Path).isAbsolute = folder.isAbsolute := by
      rw [isAbsolute, isAbsolute, htext, hfront]
      cases front <;> rfl
    rw [if_pos hlast]
    refine ⟨habsolute, ?_, name, rfl⟩
    rw [names, names, parts_of_toList htext hname.notMem, parts_of_toList hfront List.not_mem_nil,
      habsolute, List.filter_append, List.filter_append, String.ofList_toList]
    simp [hidle, show isIdlePart "" = true from rfl]
  · have htext : (folder.text ++ "/" ++ name).toList = folder.text.toList ++ '/' :: name.toList := by
      simp
    have habsolute : (⟨folder.text ++ "/" ++ name⟩ : Path).isAbsolute = folder.isAbsolute := by
      rw [isAbsolute, isAbsolute, htext]
      cases hchars : folder.text.toList with
      | nil => exact absurd (by simpa using hchars) hne
      | cons ch rest => rfl
    rw [if_neg hlast]
    refine ⟨habsolute, ?_, "/" ++ name, by rw [String.append_assoc]⟩
    rw [names, names, parts_of_toList htext hname.notMem, habsolute, parts]
    cases folder.isAbsolute <;> simp [List.filter_append, hidle]

theorem Path.exists_parent {path : Path} {name : String} (h : path.fileName? = some name) :
    ∃ parent, path.parent? = some parent := by
  unfold fileName? at h
  split at h
  · next text hlast =>
      rw [parent?, hlast]
      exact ⟨_, rfl⟩
  · cases h

namespace Disk

variable {disk other next : Disk} {path parent document : Path} {spot : Spot} {content : List UInt8}

/-! ### Locking -/

theorem exists_spot_lockPath (disk : Disk) (document : Path) :
    ∃ rest, disk.spotOf (lockPath document) =
      (document.fileName?.getD "cache" ++ ".lock") :: rest := by
  have hname := isPlainName_lockName document
  obtain ⟨parts, hparts⟩ := document.exists_parts_withFileName hname
  exact disk.spotOf_eq_cons hname hparts

theorem exists_parent_lockPath (document : Path) :
    ∃ parent, (lockPath document).parent? = some parent := by
  have hname := isPlainName_lockName document
  obtain ⟨parts, hparts⟩ := document.exists_parts_withFileName hname
  exact Path.exists_parent (Path.fileName?_of_parts hname hparts)

/-- The lock of a document is there, and empty. -/
structure IsLocked (disk : Disk) (document : Path) : Prop where
  locate : disk.locate (lockPath document) = .ok (disk.spotOf (lockPath document))
  entry : disk.entry? (disk.spotOf (lockPath document)) = some (.file [])

theorem isLocked_of_createFile {spot : Spot}
    (h : disk.createFile (lockPath document) = .ok (next, spot)) : next.IsLocked document := by
  have hlocated : ∃ place, disk.locate (lockPath document) = .ok place := by
    unfold createFile at h
    split at h
    · cases h
    · next place hplace => exact ⟨place, hplace⟩
  obtain ⟨place, hplace⟩ := hlocated
  obtain ⟨hspot, hentry, rfl⟩ := locate_ok_of_createFile h
  obtain rfl : place = spot := (locate_eq_spotOf hplace).trans hspot.symm
  have hkeeps : Leaves [(lockPath document, [])] disk _ := leaves_put hspot hentry
  have hsame := spotOf_congr hkeeps.workingDirectory (lockPath document)
  refine ⟨?_, ?_⟩
  · rw [hsame, ← hspot]
    exact hkeeps.locate hplace
  · obtain ⟨rest, hrest⟩ := disk.exists_spot_lockPath document
    rw [hsame, ← hspot, entry_put, if_pos ⟨rfl, by rw [hspot, hrest]; exact List.cons_ne_nil _ _⟩]

theorem isLocked_lock (h : (disk.lock document).2.isOk = true) :
    (disk.lock document).1.IsLocked document := by
  obtain ⟨parent, hparent⟩ := exists_parent_lockPath document
  unfold lock at h ⊢
  dsimp only at h ⊢
  rw [hparent] at h ⊢
  dsimp only at h ⊢
  generalize disk.createAll parent = made at h ⊢
  obtain ⟨ready, fault | ok⟩ := made
  · cases h
  · dsimp only at h ⊢
    cases hcreated : ready.createFile (lockPath document) with
    | error fault =>
        rw [hcreated] at h
        cases h
    | ok created => exact isLocked_of_createFile hcreated

theorem put_of_entry (hne : spot ≠ []) {entry : DiskEntry} (h : disk.entry? spot = some entry) :
    disk.put spot entry = disk := by
  obtain ⟨name, rest, rfl⟩ := List.exists_cons_of_ne_nil hne
  have hentries : disk.entries.insert (name :: rest) entry = disk.entries := by
    ext place found
    rw [Std.ExtTreeMap.getElem?_insert]
    by_cases hplace : name :: rest = place
    · subst hplace
      rw [if_pos Std.compare_self]
      exact iff_of_eq (congrArg (· = some found) h.symm)
    · rw [if_neg (by simpa using hplace)]
  rw [put, hentries]

/-- **A document is locked once.** Locking it again changes nothing. -/
theorem IsLocked.lock (h : disk.IsLocked document) : disk.lock document = (disk, .ok ()) := by
  obtain ⟨parent, hparent⟩ := exists_parent_lockPath document
  have hmade : disk.createAll parent = (disk, .ok ()) := by
    by_cases htext : parent.text = ""
    · unfold createAll createDirectories createInside
      rw [if_pos htext]
    · have hway := (Path.parent_cases hparent).resolve_left htext
      exact createDirectories_of_isDirectory _ (withoutSlashes_eq hway.trimmed)
        (isDirectory_of_locate_parent hparent htext h.locate)
  have hcreated : disk.createFile (lockPath document) =
      .ok (disk, disk.spotOf (lockPath document)) := by
    obtain ⟨rest, hrest⟩ := disk.exists_spot_lockPath document
    rw [createFile, h.locate]
    dsimp only
    rw [if_neg (by rw [h.entry]; nofun),
      put_of_entry (by rw [hrest]; exact List.cons_ne_nil _ _) h.entry]
  unfold Disk.lock
  dsimp only
  rw [hparent]
  dsimp only
  rw [hmade]
  dsimp only
  rw [hcreated]

/-- The lock of a document is no temporary file. -/
theorem not_isTemporary_lockPath (disk : Disk) (document : Path) :
    ¬IsTemporary (disk.spotOf (lockPath document)) := by
  obtain ⟨rest, hrest⟩ := disk.exists_spot_lockPath document
  rintro ⟨name, hname⟩
  rw [hrest] at hname
  have hlast := congrArg (fun text => text.toList.getLast?) (Option.some.inj hname)
  simp [temporaryName, List.getLast?_cons] at hlast

/-- Writing the document leaves its lock as it is. -/
theorem IsLocked.writeChanged (h : disk.IsLocked document) (text : String) :
    (disk.writeChanged document text).1.IsLocked document := by
  have hleaves := leaves_writeChanged disk document text
  have hsame := spotOf_congr hleaves.workingDirectory (lockPath document)
  refine ⟨?_, ?_⟩
  · rw [hsame]
    exact hleaves.locate h.locate
  · obtain ⟨content, hkept⟩ :=
      hleaves.kept _ [] h.entry (disk.not_isTemporary_lockPath document)
    rw [hsame]
    rcases hleaves.made _ content hkept with hold | ⟨file, hfile, hspot, -⟩
    · rw [hkept, ← hold, h.entry]
    · rw [List.mem_singleton.1 hfile] at hspot
      exact absurd hspot (disk.spotOf_lockPath_ne document)

/-! ### Beside the lock -/

/-- A file that is put somewhere opens no way. -/
theorem keepsDirectories_of_put (disk : Disk) (spot : Spot) (content : List UInt8) :
    (disk.put spot (.file content)).KeepsDirectories disk where
  workingDirectory := rfl
  entry place hplace := by
    rw [entry_put] at hplace
    split_ifs at hplace
    · cases hplace
    · exact hplace

/-- The directory around a document whose lock is there need not be made. -/
theorem IsLocked.ensureParent (h : disk.IsLocked document) (hplain : document.EndsPlain) :
    disk.ensureParent document = (disk, .ok ()) := by
  obtain ⟨front, name, hparts, hname⟩ := hplain
  have hfile := Path.fileName?_of_parts hname hparts
  obtain ⟨parent, hparent⟩ := Path.exists_parent hfile
  unfold Disk.ensureParent
  rw [hparent]
  dsimp only
  by_cases htext : parent.text = ""
  · rw [if_pos htext]
  · have hlock : lockPath document = parent / (document.fileName?.getD "cache" ++ ".lock") := by
      rw [lockPath, Path.withFileName, hfile, hparent]
    have hlocated := h.locate
    rw [hlock] at hlocated
    obtain ⟨habsolute, hnames, hrest⟩ := parent.names_join (isPlainName_lockName document) htext
    have hthere := isDirectory_of_locate habsolute.symm hnames hrest htext hlocated
    rw [if_neg htext, ensureDirectory_of_isDirectory hthere]

/-- A document that can be written beside its lock could be reached before. -/
theorem IsLocked.locate_of_write (h : disk.IsLocked document)
    (hwritten : (disk.write document content).2.isOk = true) :
    ∃ spot, disk.locate document = .ok spot := by
  have hplain := endsPlain_of_write hwritten
  unfold write replace at hwritten
  rw [h.ensureParent hplain] at hwritten
  dsimp only at hwritten
  obtain ⟨front, name, hparts, hname⟩ := hplain
  cases hcreated : disk.createFile (temporaryPath plainMark document) with
  | error fault =>
      rw [(replaceBeside_of_createFile_error content hcreated).2] at hwritten
      cases hwritten
  | ok created =>
      obtain ⟨started, source⟩ := created
      obtain ⟨-, -, rfl⟩ := locate_ok_of_createFile hcreated
      cases hrenamed : ((disk.put source (.file [])).put source (.file content)).rename source
          content document with
      | error fault =>
          rw [(replaceBeside_of_rename_error hcreated hrenamed).2] at hwritten
          cases hwritten
      | ok final =>
          obtain ⟨rest, hplace, -, -⟩ := rename_ok hname hparts hrenamed
          have hbefore := (keepsDirectories_of_put _ source content).locate hplace
          exact ⟨_, (keepsDirectories_of_put disk source []).locate hbefore⟩

end Disk

end ComponentTags
