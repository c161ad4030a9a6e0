import ComponentTags.Cache.Basic
import ComponentTags.Proofs.Disk.Leavings

/-!
Files beside others. A file under another name is at another place, whatever the path is; so locking a
document spares it, and so does an attempt to write it that fails.
-/

namespace ComponentTags

/-! ### Places -/

theorem Spot.walk_of_getLast? {spot : Spot} {parts : List String} {name : String}
    (h : (parts.filterMap PathStep.ofPart?).getLast? = some (.name name)) :
    ∃ rest, Spot.walk spot parts = name :: rest := by
  induction parts using List.reverseRecOn with
  | nil => simp at h
  | append_singleton parts part ih =>
      rw [List.filterMap_append] at h
      rw [walk_append]
      cases hpart : PathStep.ofPart? part with
      | none =>
          have hidle := Path.ofPart?_eq_none_iff.1 hpart
          rw [isIdlePart] at hidle
          obtain ⟨rest, hrest⟩ := ih (by simpa [hpart] using h)
          exact ⟨rest, by rw [hrest, walk, if_pos hidle, walk]⟩
      | some step =>
          obtain rfl : step = .name name := by simpa [hpart] using h
          unfold PathStep.ofPart? at hpart
          split at hpart
          · cases hpart
          · next hidle =>
              split at hpart
              · cases hpart
              · next hup =>
                  cases hpart
                  exact ⟨_, by rw [walk, if_neg hidle, if_neg hup, walk]⟩

namespace Path

variable {path : Path} {name : String}

theorem getLast?_of_fileName? (h : path.fileName? = some name) :
    (path.parts.filterMap PathStep.ofPart?).getLast? = some (.name name) := by
  have hcons : ∀ {first : PathStep} {steps : List PathStep}, first ≠ .name name →
      (first :: steps).getLast? = some (.name name) → steps.getLast? = some (.name name) := by
    intro first steps hne hlast
    rw [List.getLast?_cons] at hlast
    cases hsteps : steps.getLast? with
    | none => exact absurd (by simpa [hsteps] using hlast) hne
    | some step => simpa [hsteps] using hlast
  have hlast : path.steps.getLast? = some (.name name) := by
    unfold fileName? at h
    split at h
    · next hsteps =>
        cases h
        exact hsteps
    · cases h
  unfold steps at hlast
  split at hlast
  · refine hcons ?_ hlast
    nofun
  · split at hlast
    · next rest hhere =>
        rw [hhere]
        refine hcons ?_ hlast
        nofun
    · exact hlast

theorem parts_of_toList {front back : List Char} (htext : path.text.toList = front ++ '/' :: back)
    (hback : '/' ∉ back) :
    path.parts = ((splitChars '/' front).map String.ofList).drop (if path.isAbsolute then 1 else 0) ++
      [String.ofList back] := by
  have hlength : 0 < (splitChars '/' front).length :=
    List.length_pos_iff.2 (splitChars_ne_nil '/' front)
  rw [parts, htext, splitChars_append, splitChars_of_notMem hback]
  cases path.isAbsolute with
  | false => simp
  | true =>
      have hdrop : 1 ≤ ((splitChars '/' front).map String.ofList).length := by
        rw [List.length_map]
        omega
      simp [List.drop_append_of_le_length hdrop]

end Path

namespace Disk

variable {disk other last : Disk} {path : Path} {name : String} {spot : Spot}

theorem exists_spotOf_of_fileName? (disk : Disk) (h : path.fileName? = some name) :
    ∃ rest, disk.spotOf path = name :: rest :=
  Spot.walk_of_getLast? (Path.getLast?_of_fileName? h)

/-- A name that is put at the end of a path leads one step further. -/
theorem spotOf_join (disk : Disk) (path : Path) (hname : IsPlainName name) :
    disk.spotOf (path / name) = name :: disk.spotOf path := by
  change disk.spotOf (path.join ⟨name⟩) = _
  have hwalk : ∀ spot, Spot.walk spot [name] = name :: spot := fun spot => by
    simp [Spot.walk, hname.ne_empty, hname.ne_here, hname.ne_parent]
  have hrelative := Path.isAbsolute_of_isPlainName hname
  unfold Path.join
  rw [hrelative, Bool.false_or]
  split
  · next hempty =>
      obtain rfl : path = ⟨""⟩ := by
        cases path
        simp_all
      have hparts : (⟨name⟩ : Path).parts = [name] := by
        rw [Path.parts, hrelative]
        simp [splitChars_of_notMem hname.notMem]
      rw [spotOf, hrelative, hparts]
      exact hwalk _
  · next hne =>
      split
      · next hlast =>
          obtain ⟨front, hfront⟩ := List.getLast?_eq_some_iff.1 hlast
          have htext : (path.text ++ name).toList = front ++ '/' :: name.toList := by simp [hfront]
          have habsolute : (⟨path.text ++ name⟩ : Path).isAbsolute = path.isAbsolute := by
            rw [Path.isAbsolute, Path.isAbsolute, htext, hfront]
            cases front <;> rfl
          rw [spotOf, spotOf, Path.parts_of_toList htext hname.notMem,
            Path.parts_of_toList hfront List.not_mem_nil, habsolute, Spot.walk_append,
            Spot.walk_append, String.ofList_toList, hwalk]
          rfl
      · have htext : (path.text ++ "/" ++ name).toList = path.text.toList ++ '/' :: name.toList := by
          simp
        have habsolute : (⟨path.text ++ "/" ++ name⟩ : Path).isAbsolute = path.isAbsolute := by
          rw [Path.isAbsolute, Path.isAbsolute, htext]
          cases hchars : path.text.toList with
          | nil => exact absurd (by simpa using hchars) hne
          | cons ch rest => rfl
        rw [spotOf, spotOf, Path.parts_of_toList htext hname.notMem, habsolute, Path.parts]
        cases path.isAbsolute <;> simp [Spot.walk_append, hwalk]

/-- **A file under another name is another file.** -/
theorem spotOf_withFileName_ne (disk : Disk) (hname : IsPlainName name)
    (hne : path.fileName? ≠ some name) : disk.spotOf (path.withFileName name) ≠ disk.spotOf path := by
  cases hfile : path.fileName? with
  | none =>
      rw [Path.withFileName, hfile, disk.spotOf_join path hname]
      exact List.cons_ne_self _ _
  | some found =>
      obtain ⟨parts, hparts⟩ := path.exists_parts_withFileName hname
      obtain ⟨rest, hrest⟩ := disk.spotOf_eq_cons hname hparts
      obtain ⟨rest', hrest'⟩ := disk.exists_spotOf_of_fileName? hfile
      rw [hrest, hrest']
      intro heq
      obtain rfl : name = found := (List.cons.inj heq).1
      exact hne hfile

/-! ### Sparing a place -/

/-- What stands at a place stays there, and if nothing does, then no file comes up. -/
structure Spares (spot : Spot) (disk other : Disk) : Prop extends KeepsDirectories disk other where
  file_iff : ∀ content, other.entry? spot = some (.file content) ↔
    disk.entry? spot = some (.file content)

namespace Spares

theorem of_agreesOff (spot : Spot) (h : disk.AgreesOff [] other) : Spares spot disk other where
  toKeepsDirectories := h.toKeepsDirectories
  file_iff _ := h.file_iff (by simp)

theorem refl (spot : Spot) (disk : Disk) : Spares spot disk disk :=
  of_agreesOff spot (.refl [] disk)

theorem trans (h : Spares spot disk other) (h' : Spares spot other last) :
    Spares spot disk last where
  workingDirectory := h'.workingDirectory.trans h.workingDirectory
  entry place hplace := h'.entry place (h.entry place hplace)
  file_iff content := (h'.file_iff content).trans (h.file_iff content)

theorem put {place : Spot} {content : List UInt8} (hne : place ≠ spot)
    (hentry : disk.entry? place ≠ some .directory) :
    Spares spot disk (disk.put place (.file content)) where
  workingDirectory := rfl
  entry found hfound := by
    rw [entry_put, if_neg, hfound]
    rintro ⟨rfl, -⟩
    exact hentry hfound
  file_iff _ := by rw [entry_put, if_neg fun h => hne h.1.symm]

theorem erase {place : Spot} (hne : place ≠ spot)
    (hentry : disk.entry? place ≠ some .directory) : Spares spot disk (disk.erase place) where
  workingDirectory := rfl
  entry found hfound := by
    rw [entry_erase, if_neg, hfound]
    rintro ⟨rfl, -⟩
    exact hentry hfound
  file_iff _ := by rw [entry_erase, if_neg fun h => hne h.1.symm]

theorem read {content : List UInt8} (h : Spares (disk.spotOf path) disk other)
    (hread : disk.read path = .ok content) : other.read path = .ok content := by
  obtain ⟨found, hfound, hentry⟩ := read_eq_ok_iff.1 hread
  obtain rfl := locate_eq_spotOf hfound
  exact read_eq_ok_iff.2 ⟨_, h.locate hfound, (h.file_iff content).2 hentry⟩

end Spares

theorem isPlainName_lockName (path : Path) : IsPlainName (path.fileName?.getD "cache" ++ ".lock") := by
  have hname : '/' ∉ (path.fileName?.getD "cache").toList := by
    cases hfile : path.fileName? with
    | none => decide
    | some name => exact (isPlainName_of_fileName? hfile).notMem
  have hlength : 4 < (path.fileName?.getD "cache" ++ ".lock").toList.length := by
    simp
  refine ⟨?_, ?_, ?_, ?_⟩
  · simpa using hname
  all_goals
    intro heq
    rw [heq] at hlength
    exact absurd hlength (by decide)

/-- The lock is another file than the document. -/
theorem spotOf_lockPath_ne (disk : Disk) (document : Path) :
    disk.spotOf (lockPath document) ≠ disk.spotOf document := by
  refine disk.spotOf_withFileName_ne (isPlainName_lockName document) fun hsame => ?_
  have hlength := congrArg (fun name => (name.getD "cache").length) hsame
  simp at hlength

theorem spotOf_temporaryPath_ne {mark : String} (hmark : '/' ∉ mark.toList) (disk : Disk)
    (path : Path) : disk.spotOf (temporaryPath mark path) ≠ disk.spotOf path := by
  have hplain := isPlainName_temporaryName hmark (isPlainName_getD_fileName? path)
  refine disk.spotOf_withFileName_ne hplain fun hsame => ?_
  exact name_ne_temporaryName mark _ (congrArg (fun name => name.getD "artifact") hsame)

theorem spares_lock (disk : Disk) (document : Path) :
    Spares (disk.spotOf document) disk (disk.lock document).1 := by
  have hcreated : ∀ {ready locked : Disk} {spot : Spot}, disk.AgreesOff [] ready →
      ready.createFile (lockPath document) = .ok (locked, spot) →
        Spares (disk.spotOf document) disk locked := by
    intro ready locked spot hready hcreated
    obtain ⟨rfl, hentry, rfl⟩ := locate_ok_of_createFile hcreated
    refine (Spares.of_agreesOff _ hready).trans (.put ?_ hentry)
    rw [← spotOf_congr hready.workingDirectory document]
    exact ready.spotOf_lockPath_ne document
  unfold lock
  dsimp only
  cases (lockPath document).parent? with
  | none =>
      dsimp only
      split
      · next hopened => exact hcreated (.refl [] disk) hopened
      · exact .refl _ disk
  | some parent =>
      have hall : disk.AgreesOff [] (disk.createAll parent).1 :=
        agreesOff_createDirectories (parent.steps.length + 1) disk parent
      dsimp only
      generalize disk.createAll parent = made at hall ⊢
      obtain ⟨ready, fault | ok⟩ := made
      · exact .of_agreesOff _ hall
      · dsimp only
        split
        · next hopened => exact hcreated hall hopened
        · exact .of_agreesOff _ hall

theorem entry_put_file_ne (content : List UInt8) (h : disk.entry? spot ≠ some .directory) :
    Disk.entry? (disk.put spot (.file content)) spot ≠ some .directory := by
  rw [entry_put]
  split
  · nofun
  · exact h

theorem spares_replaceBeside {content : List UInt8}
    (h : (disk.replaceBeside none plainMark path content).outcome.isOk = false) :
    Spares (disk.spotOf path) disk (disk.replaceBeside none plainMark path content).disk := by
  cases hcreated : disk.createFile (temporaryPath plainMark path) with
  | error fault =>
      rw [(replaceBeside_of_createFile_error content hcreated).1]
      exact .refl _ disk
  | ok created =>
      obtain ⟨started, source⟩ := created
      cases hrenamed : (started.put source (.file content)).rename source content path with
      | error fault =>
          rw [(replaceBeside_of_rename_error hcreated hrenamed).1]
          obtain ⟨rfl, hentry, rfl⟩ := locate_ok_of_createFile hcreated
          have hne := spotOf_temporaryPath_ne notMem_plainMark disk path
          have hstarted := entry_put_file_ne [] hentry
          exact ((Spares.put hne hentry).trans (.put hne hstarted)).trans
            (.erase hne (entry_put_file_ne content hstarted))
      | ok final =>
          rw [(replaceBeside_of_rename_ok hcreated hrenamed).2] at h
          cases h

theorem spares_write {content : List UInt8} (h : (disk.write path content).2.isOk = false) :
    Spares (disk.spotOf path) disk (disk.write path content).1 := by
  have hparent := agreesOff_ensureParent disk path
  unfold write replace at h ⊢
  cases houtcome : disk.ensureParent path with
  | mk ready outcome =>
      rw [houtcome] at hparent h
      cases outcome with
      | error failure => exact .of_agreesOff _ hparent
      | ok done =>
          refine (Spares.of_agreesOff _ hparent).trans ?_
          rw [← spotOf_congr hparent.workingDirectory path]
          exact spares_replaceBeside h

/-- An attempt to write a text that fails leaves the file as it is, whatever the path is. -/
theorem spares_writeChanged {text : String} (h : (disk.writeChanged path text).2.isOk = false) :
    Spares (disk.spotOf path) disk (disk.writeChanged path text).1 := by
  rcases writeChanged_cases disk path text with ⟨hsame, -⟩ | ⟨hdisk, hok⟩
  · rw [hsame]
    exact .refl _ disk
  · rw [hdisk]
    exact spares_write (hok.symm.trans h)

end Disk

end ComponentTags
