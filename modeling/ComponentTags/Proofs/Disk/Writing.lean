import ComponentTags.Disk.Replacing
import ComponentTags.Proofs.Disk.Places

/-!
Writing files. A write touches the file, its temporary sibling and no other one; if it goes well the
file holds what was written, and if not the file is as it was.
-/

namespace ComponentTags

/-- The name of the temporary sibling of a file. -/
def temporaryName (mark name : String) : String :=
  "." ++ name ++ "." ++ mark ++ ".tmp"

theorem isPlainName_temporaryName {mark name : String} (hmark : '/' ∉ mark.toList)
    (hname : IsPlainName name) : IsPlainName (temporaryName mark name) := by
  have htext : (temporaryName mark name).toList =
      '.' :: (name.toList ++ '.' :: (mark.toList ++ ['.', 't', 'm', 'p'])) := by
    simp [temporaryName]
  have hlength : 4 < (temporaryName mark name).toList.length := by
    rw [htext]
    simp
    omega
  refine ⟨?_, ?_, ?_, ?_⟩
  · rw [htext]
    simp [hname.notMem, hmark]
  · intro h
    simp [h] at hlength
  · intro h
    simp [h] at hlength
  · intro h
    simp [h] at hlength

theorem notMem_plainMark : '/' ∉ Disk.plainMark.toList := by
  have hmark : Disk.plainMark.toList = List.replicate 32 '0' := String.toList_ofList
  rw [hmark]
  intro hmem
  exact absurd (List.eq_of_mem_replicate hmem) (by decide)

theorem isPlainName_temporaryName_plainMark {name : String} (hname : IsPlainName name) :
    IsPlainName (temporaryName Disk.plainMark name) :=
  isPlainName_temporaryName notMem_plainMark hname

namespace Disk

variable {disk other : Disk} {name mark : String} {path : Path} {parts : List String}
  {content : List UInt8}

theorem agreesOff_put_file {spot : Spot} (content : List UInt8)
    (h : disk.entry? (name :: spot) ≠ some .directory) :
    disk.AgreesOff [name] (disk.put (name :: spot) (.file content)) where
  workingDirectory := rfl
  entry place hplace := by
    have hne : place ≠ name :: spot := by
      rintro rfl
      exact h hplace
    rw [entry_put, if_neg (fun heq => hne heq.1), hplace]
  other place hplace := by
    have hne : place ≠ name :: spot := by
      rintro rfl
      exact hplace name (by simp) rfl
    rw [entry_put, if_neg (fun heq => hne heq.1)]
    exact .inl rfl

theorem agreesOff_erase {spot : Spot} (h : disk.entry? (name :: spot) ≠ some .directory) :
    disk.AgreesOff [name] (disk.erase (name :: spot)) where
  workingDirectory := rfl
  entry place hplace := by
    have hne : place ≠ name :: spot := by
      rintro rfl
      exact h hplace
    rw [entry_erase, if_neg (fun heq => hne heq.1), hplace]
  other place hplace := by
    have hne : place ≠ name :: spot := by
      rintro rfl
      exact hplace name (by simp) rfl
    rw [entry_erase, if_neg (fun heq => hne heq.1)]
    exact .inl rfl

theorem agreesOff_put_directory {spot : Spot} (h : disk.entry? spot = none) :
    disk.AgreesOff [] (disk.put spot .directory) where
  workingDirectory := rfl
  entry place hplace := by
    rw [entry_put]
    split
    · rfl
    · exact hplace
  other place _ := by
    rw [entry_put]
    split
    · next heq => exact .inr ⟨heq.1 ▸ h, rfl⟩
    · exact .inl rfl

/-! ### Directories -/

theorem agreesOff_createDirectory (h : disk.createDirectory path = .ok other) :
    disk.AgreesOff [] other := by
  unfold createDirectory at h
  split at h
  · cases h
  · split at h
    · cases h
    · next hentry =>
        cases h
        exact agreesOff_put_directory hentry

theorem agreesOff_createInside {createOuter : Disk → Path → Disk × Except IoFault Unit}
    (houter : ∀ (disk : Disk) (path : Path), disk.AgreesOff [] (createOuter disk path).1) (disk : Disk) (path : Path) :
    disk.AgreesOff [] (createInside createOuter disk path).1 := by
  unfold createInside
  split
  · exact .refl [] disk
  · split
    · next hmade => exact agreesOff_createDirectory hmade
    · split
      · split
        · exact .refl [] disk
        · next parent _ =>
            have hparent := houter disk parent
            split
            · next houtcome => rwa [houtcome] at hparent
            · next houtcome =>
                rw [houtcome] at hparent
                split
                · next hmade => exact hparent.trans (agreesOff_createDirectory hmade)
                · exact hparent
      · exact .refl [] disk

theorem agreesOff_createDirectories (fuel : Nat) (disk : Disk) (path : Path) :
    disk.AgreesOff [] (createDirectories fuel disk path).1 := by
  induction fuel generalizing disk path with
  | zero => exact agreesOff_createInside (fun disk _ => .refl [] disk) disk path
  | succ fuel ih => exact agreesOff_createInside ih disk path

theorem agreesOff_ensureDirectory (disk : Disk) (path : Path) :
    disk.AgreesOff [] (disk.ensureDirectory path).1 := by
  unfold ensureDirectory
  split
  · exact .refl [] disk
  · have hall : disk.AgreesOff [] (disk.createAll path).1 :=
      agreesOff_createDirectories (path.steps.length + 1) disk path
    split <;> next houtcome => rwa [houtcome] at hall

theorem agreesOff_ensureParent (disk : Disk) (path : Path) :
    disk.AgreesOff [] (disk.ensureParent path).1 := by
  unfold ensureParent
  split
  · exact .refl [] disk
  · split
    · exact .refl [] disk
    · next parent _ _ => exact disk.agreesOff_ensureDirectory parent

/-! ### Replacing a file -/

/-- What an attempt to write a file leaves behind; places under one of `names` may change on the way. -/
structure Attempt (name : String) (names : List String) (path : Path) (content : List UInt8)
    (disk other : Disk) (written : Bool) : Prop where
  agrees : disk.AgreesOff (name :: names) other
  refused : written = false → disk.AgreesOff names other
  read : written = true → other.read path = .ok content
  held : ∀ spot, (∀ other ∈ names, spot.head? ≠ some other) →
    (disk.entry? spot).isSome → (other.entry? spot).isSome

namespace Attempt

variable {start last : Disk} {names more : List String} {written : Bool}

theorem after (h : Attempt name names path content disk other written)
    (hstart : start.AgreesOff [] disk) : Attempt name names path content start other written where
  agrees := (hstart.mono (List.nil_subset _)).trans h.agrees
  refused hrefused := (hstart.mono (List.nil_subset _)).trans (h.refused hrefused)
  read := h.read
  held spot hspot hsome := h.held spot hspot ((hstart.mono (List.nil_subset _)).isSome hspot hsome)

theorem of_refused (h : disk.AgreesOff names other) :
    Attempt name names path content disk other false where
  agrees := h.mono (List.subset_cons_self _ _)
  refused _ := h
  read := nofun
  held _ hspot hsome := h.isSome hspot hsome

theorem before (h : Attempt name names path content disk other written)
    (hlast : other.AgreesOff more last) (hname : IsPlainName name)
    (hparts : path.parts = parts ++ [name]) (hmore : name ∉ more) :
    Attempt name (names ++ more) path content disk last written where
  agrees :=
    (h.agrees.mono (by simp)).trans (hlast.mono (by simp))
  refused hrefused :=
    ((h.refused hrefused).mono (by simp)).trans (hlast.mono (by simp))
  read hwritten := hlast.read hname hparts hmore (h.read hwritten)
  held spot hspot hsome :=
    hlast.isSome (fun other hother => hspot other (List.mem_append_right _ hother))
      (h.held spot (fun other hother => hspot other (List.mem_append_left _ hother)) hsome)

theorem holds (h : Attempt name names path content disk other written) {place : Path}
    {step : String} {steps : List String} (hstep : IsPlainName step)
    (hsteps : place.parts = steps ++ [step]) (hnames : step ∉ names)
    (hholds : disk.holds place = true) : other.holds place = true := by
  obtain ⟨spot, hspot, hentry⟩ := holds_iff.1 hholds
  have hoff := disk.head_spotOf_ne hstep hsteps hnames
  rw [← locate_eq_spotOf hspot] at hoff
  exact holds_iff.2 ⟨spot, h.agrees.locate hspot, h.held spot hoff hentry⟩

end Attempt

theorem temporaryPath_eq (hname : IsPlainName name) (hparts : path.parts = parts ++ [name]) :
    temporaryPath mark path = path.withFileName (temporaryName mark name) := by
  rw [temporaryPath, Path.fileName?_of_parts hname hparts]
  rfl

theorem createFile_spot (hname : IsPlainName name) (hparts : path.parts = parts ++ [name])
    {spot : Spot} (h : disk.createFile path = .ok (other, spot)) :
    ∃ rest, spot = name :: rest ∧ disk.entry? spot ≠ some .directory ∧
      other = disk.put spot (.file []) := by
  unfold createFile at h
  split at h
  · cases h
  · next place hplace =>
      split at h
      · cases h
      · next hentry =>
          cases h
          obtain ⟨rest, hrest⟩ := disk.spotOf_eq_cons hname hparts
          exact ⟨rest, (locate_eq_spotOf hplace).trans hrest, hentry, rfl⟩

theorem rename_ok {source : Spot} (hname : IsPlainName name)
    (hparts : path.parts = parts ++ [name]) (h : disk.rename source content path = .ok other) :
    ∃ rest, disk.locate path = .ok (name :: rest) ∧
      disk.entry? (name :: rest) ≠ some .directory ∧
      other = (disk.erase source).put (name :: rest) (.file content) := by
  unfold rename at h
  dsimp only at h
  split at h
  · cases h
  · cases h
  · cases h
  · cases h
  · split at h
    · cases h
    · next spot hspot =>
        split at h
        · cases h
        · next hpath =>
            rw [Classical.not_not.1 hpath] at hspot
            split at h
            · cases h
            · next hentry =>
                cases h
                obtain ⟨rest, hrest⟩ := disk.spotOf_eq_cons hname hparts
                obtain rfl := (locate_eq_spotOf hspot).trans hrest
                exact ⟨rest, hspot, hentry, rfl⟩

/-! What the replacement of a file comes to when nothing is refused by a mishap. -/

theorem replaceBeside_of_createFile_error {fault : IoFault} (content : List UInt8)
    (h : disk.createFile (temporaryPath mark path) = .error fault) :
    (disk.replaceBeside none mark path content).disk = disk ∧
      (disk.replaceBeside none mark path content).outcome.isOk = false := by
  unfold replaceBeside
  dsimp only
  rw [h]
  exact ⟨rfl, rfl⟩

theorem replaceBeside_of_rename_error {fault : IoFault} {started : Disk} {spot : Spot}
    (h : disk.createFile (temporaryPath mark path) = .ok (started, spot))
    (hrename : (started.put spot (.file content)).rename spot content path = .error fault) :
    (disk.replaceBeside none mark path content).disk =
        (started.put spot (.file content)).erase spot ∧
      (disk.replaceBeside none mark path content).outcome.isOk = false := by
  unfold replaceBeside
  dsimp only
  rw [h]
  dsimp only
  rw [hrename]
  exact ⟨rfl, rfl⟩

theorem replaceBeside_of_rename_ok {started final : Disk} {spot : Spot}
    (h : disk.createFile (temporaryPath mark path) = .ok (started, spot))
    (hrename : (started.put spot (.file content)).rename spot content path = .ok final) :
    (disk.replaceBeside none mark path content).disk = final ∧
      (disk.replaceBeside none mark path content).outcome.isOk = true := by
  unfold replaceBeside
  dsimp only
  rw [h]
  dsimp only
  rw [hrename]
  exact ⟨rfl, rfl⟩

theorem name_ne_temporaryName (mark name : String) : name ≠ temporaryName mark name := by
  intro heq
  have hlength := congrArg (fun text => text.toList.length) heq
  simp [temporaryName] at hlength
  omega

theorem attempt_replaceBeside (hname : IsPlainName name) (hparts : path.parts = parts ++ [name])
    (disk : Disk) (content : List UInt8) :
    Attempt name [temporaryName plainMark name] path content disk (disk.replaceBeside none plainMark path content).disk
      (disk.replaceBeside none plainMark path content).outcome.isOk := by
  have htemporary := isPlainName_temporaryName_plainMark hname
  have hne := name_ne_temporaryName plainMark name
  obtain ⟨before, hbefore⟩ := path.exists_parts_withFileName htemporary
  rw [← temporaryPath_eq hname hparts] at hbefore
  cases hcreated : disk.createFile (temporaryPath plainMark path) with
  | error fault =>
      obtain ⟨hdisk, houtcome⟩ := replaceBeside_of_createFile_error content hcreated
      rw [hdisk, houtcome]
      exact .of_refused (.refl _ disk)
  | ok created =>
      obtain ⟨started, source⟩ := created
      obtain ⟨rest, rfl, hentry, rfl⟩ := createFile_spot htemporary hbefore hcreated
      generalize hwritten : (disk.put (temporaryName plainMark name :: rest) (.file [])).put
        (temporaryName plainMark name :: rest) (.file content) = written
      have hsource : written.entry? (temporaryName plainMark name :: rest) ≠ some .directory := by
        simp [← hwritten, entry_put]
      have herased : disk.AgreesOff [temporaryName plainMark name]
          (written.erase (temporaryName plainMark name :: rest)) := by
        refine ((agreesOff_put_file [] hentry).trans ?_).trans (agreesOff_erase hsource)
        rw [← hwritten]
        exact agreesOff_put_file content (by simp [entry_put])
      cases hrenamed : written.rename (temporaryName plainMark name :: rest) content path with
      | error fault =>
          rw [← hwritten] at hrenamed
          obtain ⟨hdisk, houtcome⟩ := replaceBeside_of_rename_error hcreated hrenamed
          rw [hdisk, houtcome, hwritten]
          exact .of_refused herased
      | ok final =>
          obtain ⟨place, hplace, htarget, rfl⟩ := rename_ok hname hparts hrenamed
          rw [← hwritten] at hrenamed
          obtain ⟨hdisk, houtcome⟩ := replaceBeside_of_rename_ok hcreated hrenamed
          rw [hdisk, houtcome, hwritten]
          have hfree : Disk.entry?
              (written.erase (temporaryName plainMark name :: rest)) (name :: place) ≠
                some .directory := by
            simpa [entry_erase, hne] using htarget
          have hput := agreesOff_put_file content hfree
          refine ⟨?_, nofun, fun _ => ?_, fun spot hspot hsome => ?_⟩
          · exact (herased.mono (List.subset_cons_self _ _)).trans (hput.mono (by simp))
          · refine read_eq_ok_iff.2 ⟨name :: place, ?_, by simp [entry_put]⟩
            exact hput.locate ((agreesOff_erase hsource).locate hplace)
          · rw [entry_put]
            split
            · rfl
            · exact herased.isSome hspot hsome

theorem attempt_write (hname : IsPlainName name) (hparts : path.parts = parts ++ [name])
    (disk : Disk) (content : List UInt8) :
    Attempt name [temporaryName plainMark name] path content disk (disk.write path content).1
      (disk.write path content).2.isOk := by
  have hparent := agreesOff_ensureParent disk path
  unfold write replace
  cases houtcome : disk.ensureParent path with
  | mk ready outcome =>
      rw [houtcome] at hparent
      cases outcome with
      | error failure => exact .of_refused (hparent.mono (List.nil_subset _))
      | ok done => exact (attempt_replaceBeside hname hparts ready content).after hparent

/-- A text is written, or nothing is: the file holds the text already, or it cannot be read. -/
theorem writeChanged_cases (disk : Disk) (path : Path) (text : String) :
    (disk.writeChanged path text).1 = disk ∧
        ((disk.writeChanged path text).2.isOk = true →
          disk.read path = .ok (Utf8.encode text.toList)) ∨
      (disk.writeChanged path text).1 = (disk.write path (Utf8.encode text.toList)).1 ∧
        (disk.writeChanged path text).2.isOk =
          (disk.write path (Utf8.encode text.toList)).2.isOk := by
  unfold writeChanged
  dsimp only
  generalize disk.write path (Utf8.encode text.toList) = result
  obtain ⟨next, outcome⟩ := result
  split
  · next found hfound =>
      split
      · next heq => exact .inl ⟨rfl, fun _ => by rw [hfound, heq]⟩
      · cases outcome <;> exact .inr ⟨rfl, rfl⟩
  · split
    · cases outcome <;> exact .inr ⟨rfl, rfl⟩
    · exact .inl ⟨rfl, fun hok => absurd hok Bool.false_ne_true⟩

/-- Writing a text touches no other file than the one it is for and the temporary one. -/
theorem attempt_writeChanged (hname : IsPlainName name) (hparts : path.parts = parts ++ [name])
    (disk : Disk) (text : String) :
    Attempt name [temporaryName plainMark name] path
      (Utf8.encode text.toList) disk (disk.writeChanged path text).1
      (disk.writeChanged path text).2.isOk := by
  rcases writeChanged_cases disk path text with ⟨hsame, hread⟩ | ⟨hdisk, hok⟩
  · rw [hsame]
    exact ⟨.refl _ disk, fun _ => .refl _ disk, hread, fun _ _ => id⟩
  · rw [hdisk, hok]
    exact attempt_write hname hparts disk _

/-! ### Several files -/

theorem writeAll_cons (disk : Disk) (path : Path) (text : String) (rest : List (Path × String)) :
    (disk.writeAll ((path, text) :: rest)).1 = ((disk.writeChanged path text).1.writeAll rest).1 :=
  rfl

theorem isOk_writeChanged_of_writeAll {text : String} {rest : List (Path × String)} {count : Nat}
    (h : (disk.writeAll ((path, text) :: rest)).2 = .ok count) :
    (disk.writeChanged path text).2.isOk = true := by
  cases hfirst : disk.writeChanged path text with
  | mk next outcome =>
      cases outcome with
      | error failure =>
          rw [writeAll, hfirst] at h
          cases h
      | ok written => rfl

theorem agreesOff_writeAll_singleton (hname : IsPlainName name)
    (hparts : path.parts = parts ++ [name]) (disk : Disk) (text : String) :
    disk.AgreesOff [name, temporaryName plainMark name] (disk.writeAll [(path, text)]).1 :=
  (attempt_writeChanged hname hparts disk text).agrees

theorem attempt_writeAll_cons (hname : IsPlainName name) (hparts : path.parts = parts ++ [name])
    {names : List String} {rest : List (Path × String)}
    (hrest : ∀ disk : Disk, disk.AgreesOff names (disk.writeAll rest).1) (hnames : name ∉ names)
    (disk : Disk) (text : String) :
    Attempt name (temporaryName plainMark name :: names) path (Utf8.encode text.toList) disk
      (disk.writeAll ((path, text) :: rest)).1 (disk.writeChanged path text).2.isOk := by
  rw [writeAll_cons]
  exact (attempt_writeChanged hname hparts disk text).before (hrest _) hname hparts hnames

end Disk

end ComponentTags
