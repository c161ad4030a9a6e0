import ComponentTags.Proofs.Disk.Siblings
import ComponentTags.Proofs.Disk.Trees

/-!
Traces of a replacement. Whichever call is refused, and wherever writing stops, a reader of the target
finds what stood there or all that was to be written. A refused renaming takes the temporary file away
again; refused writing and syncing leave it, and that is the only trace but for directories.
-/

namespace ComponentTags

/-- What a refused call leaves in the temporary file, if it leaves the file at all. -/
def Mishap.leftover? (content : List UInt8) : Mishap → Option (List UInt8)
  | .creating _ => none
  | .writing written _ => some (content.take written)
  | .syncing _ => some content
  | .renaming _ => none

namespace Disk

variable {disk other last : Disk} {spot : Spot} {path : Path} {mark : String}
  {content : List UInt8} {mishap : Option Mishap}

/-! ### Disks that differ at one place -/

/-- A disk that keeps the directories of another one, and what is at every place but one. -/
structure DiffersAt (spot : Spot) (disk other : Disk) : Prop extends KeepsDirectories disk other where
  off : ∀ place, place ≠ spot → other.entry? place = disk.entry? place

namespace DiffersAt

theorem refl (spot : Spot) (disk : Disk) : DiffersAt spot disk disk :=
  { workingDirectory := rfl, entry := fun _ h => h, off := fun _ _ => rfl }

theorem trans (h : DiffersAt spot disk other) (h' : DiffersAt spot other last) :
    DiffersAt spot disk last where
  workingDirectory := h'.workingDirectory.trans h.workingDirectory
  entry place hplace := h'.entry place (h.entry place hplace)
  off place hplace := (h'.off place hplace).trans (h.off place hplace)

theorem of_off (hdirectory : other.workingDirectory = disk.workingDirectory)
    (hoff : ∀ place, place ≠ spot → other.entry? place = disk.entry? place)
    (hentry : disk.entry? spot ≠ some .directory) : DiffersAt spot disk other where
  workingDirectory := hdirectory
  entry place hplace := by
    have hne : place ≠ spot := by
      rintro rfl
      exact hentry hplace
    rw [hoff place hne, hplace]
  off := hoff

theorem put (content : List UInt8) (hentry : disk.entry? spot ≠ some .directory) :
    DiffersAt spot disk (disk.put spot (.file content)) :=
  of_off rfl (fun place hplace => by rw [entry_put, if_neg fun h => hplace h.1]) hentry

theorem erase (hentry : disk.entry? spot ≠ some .directory) :
    DiffersAt spot disk (disk.erase spot) :=
  of_off rfl (fun place hplace => by rw [entry_erase, if_neg fun h => hplace h.1]) hentry

end DiffersAt

/-! ### The ways a replacement can go -/

/-- The temporary file is there, and the calls after it go on until one of them is refused. -/
inductive Course (disk : Disk) (spot : Spot) (path : Path) (content : List UInt8) :
    Option (List UInt8) → Replacement → Prop
  | stopped (part : List UInt8) (failure : Failure) :
      Course disk spot path content (some part)
        { passed := [disk, disk.put spot (.file [])]
          disk := (disk.put spot (.file [])).put spot (.file part)
          outcome := .error failure }
  | cleared (failure : Failure) :
      Course disk spot path content none
        { passed := [disk, disk.put spot (.file []), (disk.put spot (.file [])).put spot (.file content)]
          disk := ((disk.put spot (.file [])).put spot (.file content)).erase spot
          outcome := .error failure }
  | renamed (final : Disk)
      (h : ((disk.put spot (.file [])).put spot (.file content)).rename spot content path =
        .ok final) :
      Course disk spot path content none
        { passed := [disk, disk.put spot (.file []), (disk.put spot (.file [])).put spot (.file content)]
          disk := final
          outcome := .ok () }

/-- Whether the temporary file can be made where a file is to be replaced. -/
def CanStart (disk : Disk) (mishap : Option Mishap) (mark : String) (path : Path) : Prop :=
  (∀ fault, mishap ≠ some (.creating fault)) ∧
    (disk.createFile (temporaryPath mark path)).isOk = true

theorem replaceBeside_of_not_canStart (h : ¬disk.CanStart mishap mark path) :
    ∃ failure, disk.replaceBeside mishap mark path content =
      { passed := [disk], disk, outcome := .error failure } := by
  unfold replaceBeside
  dsimp only
  cases hcreated : disk.createFile (temporaryPath mark path) with
  | error fault =>
      rcases mishap with _ | _ | _ | _ | _ <;> exact ⟨_, rfl⟩
  | ok created =>
      have hcreating : ∃ fault, mishap = some (.creating fault) := by
        by_contra hnone
        exact h ⟨fun fault hfault => hnone ⟨fault, hfault⟩, by rw [hcreated]; rfl⟩
      obtain ⟨fault, rfl⟩ := hcreating
      exact ⟨_, rfl⟩

/-- **Every way in which a replacement goes on** once its temporary file can be made. -/
theorem course_replaceBeside (h : disk.CanStart mishap mark path) :
    disk.entry? (disk.spotOf (temporaryPath mark path)) ≠ some .directory ∧
      Course disk (disk.spotOf (temporaryPath mark path)) path content
        (mishap.bind (Mishap.leftover? content)) (disk.replaceBeside mishap mark path content) := by
  obtain ⟨hcreating, hcreated⟩ := h
  cases hfile : disk.createFile (temporaryPath mark path) with
  | error fault =>
      rw [hfile] at hcreated
      cases hcreated
  | ok created =>
      obtain ⟨started, spot⟩ := created
      obtain ⟨hspot, hentry, rfl⟩ := locate_ok_of_createFile hfile
      rw [← hspot]
      refine ⟨hentry, ?_⟩
      unfold replaceBeside
      dsimp only
      rw [hfile]
      rcases mishap with _ | fault | ⟨written, fault⟩ | fault | fault
      · dsimp only
        split
        · exact .cleared _
        · next final hrenamed => exact .renamed final hrenamed
      · exact absurd rfl (hcreating fault)
      · exact .stopped _ _
      · exact .stopped _ _
      · exact .cleared _

theorem grownAlong_ensureDirectory {folder : Path} (hdots : ".." ∉ folder.parts)
    (htrim : withoutSlashes folder = folder) (disk : Disk) :
    GrownAlong folder disk (disk.ensureDirectory folder).1 := by
  unfold ensureDirectory
  split
  · exact .refl folder disk
  · have hmade : GrownAlong folder disk (disk.createAll folder).1 :=
      (isMade_createDirectories (folder.steps.length + 1) hdots htrim
        (Nat.lt_succ_of_le (length_names_le folder)) disk).grown
    split <;> next houtcome => rwa [houtcome] at hmade

/-! ### What is left at the places -/

theorem spotOf_temporaryPath_ne_nil (hmark : '/' ∉ mark.toList) (disk : Disk) (path : Path) :
    disk.spotOf (temporaryPath mark path) ≠ [] := by
  obtain ⟨rest, hspot⟩ := exists_spotOf_temporaryPath hmark disk path
  rw [hspot]
  exact List.cons_ne_nil _ _

namespace Course

variable {part? : Option (List UInt8)} {result : Replacement}

theorem differsAt_passed (h : Course disk spot path content part? result)
    (hentry : disk.entry? spot ≠ some .directory) :
    ∀ other ∈ result.passed, DiffersAt spot disk other := by
  have hstarted := DiffersAt.put [] hentry
  have hwritten := hstarted.trans (.put content (entry_put_file_ne [] hentry))
  cases h with
  | stopped part failure => simp [DiffersAt.refl, hstarted]
  | cleared failure => simp [DiffersAt.refl, hstarted, hwritten]
  | renamed final hrename => simp [DiffersAt.refl, hstarted, hwritten]

theorem differsAt_of_refused (h : Course disk spot path content part? result)
    (hentry : disk.entry? spot ≠ some .directory) (hrefused : result.outcome.isOk = false) :
    DiffersAt spot disk result.disk := by
  have hstarted := DiffersAt.put [] hentry
  have hentry' := entry_put_file_ne [] hentry
  cases h with
  | stopped part failure => exact hstarted.trans (.put part hentry')
  | cleared failure =>
      exact (hstarted.trans (.put content hentry')).trans (.erase (entry_put_file_ne content hentry'))
  | renamed final hrename => cases hrefused

/-- A refused call leaves its part of the file under the temporary name, or nothing. -/
theorem entry_of_refused (h : Course disk spot path content part? result) (hspot : spot ≠ [])
    (hrefused : result.outcome.isOk = false) :
    result.disk.entry? spot = part?.map .file := by
  cases h with
  | stopped part failure => simp [entry_put, hspot]
  | cleared failure => simp [entry_erase, hspot]
  | renamed final hrename => cases hrefused

theorem not_isOk (h : Course disk spot path content part? result) (hpart : part?.isSome) :
    result.outcome.isOk = false := by
  cases h with
  | stopped part failure => rfl
  | cleared failure => cases hpart
  | renamed final hrename => cases hpart

/-- A replacement that goes well puts all of the content in place, and nothing else stays. -/
theorem of_isOk (h : Course disk spot path content part? result)
    (hentry : disk.entry? spot ≠ some .directory) (hne : disk.spotOf path ≠ spot) (hspot : spot ≠ [])
    (hok : result.outcome.isOk = true) :
    result.disk.read path = .ok content ∧ result.disk.entry? spot = none := by
  cases h with
  | stopped part failure => cases hok
  | cleared failure => cases hok
  | renamed final hrename =>
      obtain ⟨front, name, hparts, hname⟩ := endsPlain_of_rename hrename
      obtain ⟨rest, hplace, htarget, rfl⟩ := rename_ok hname hparts hrename
      have hsame : name :: rest = disk.spotOf path :=
        (locate_eq_spotOf hplace).trans (spotOf_congr rfl path)
      rw [← hsame] at hne
      have herased := DiffersAt.erase (entry_put_file_ne content (entry_put_file_ne [] hentry))
      have hfree := DiffersAt.put content ((herased.off _ hne).symm ▸ htarget)
      refine ⟨read_eq_ok_iff.2 ⟨name :: rest, hfree.locate (herased.locate hplace), ?_⟩, ?_⟩
      · simp [entry_put]
      · rw [hfree.off spot hne.symm]
        simp [entry_erase, hspot]

end Course

/-! ### Readers -/

/-- A reader of the target finds what stood there or all of the new content, and finds something if it
did before. -/
structure SeesWhole (path : Path) (content : List UInt8) (disk other : Disk) : Prop where
  whole : ∀ seen, other.read path = .ok seen →
    seen = content ∨ disk.entry? (disk.spotOf path) = some (.file seen)
  steady : ∀ old, disk.read path = .ok old →
    other.read path = .ok old ∨ other.read path = .ok content

namespace SeesWhole

theorem of_differsAt (h : DiffersAt spot disk other) (hne : disk.spotOf path ≠ spot) :
    SeesWhole path content disk other where
  whole seen hseen := by
    obtain ⟨place, hplace, hentry⟩ := read_eq_ok_iff.1 hseen
    obtain rfl := (locate_eq_spotOf hplace).trans (spotOf_congr h.workingDirectory path)
    exact .inr ((h.off _ hne).symm.trans hentry)
  steady old hold := by
    obtain ⟨place, hplace, hentry⟩ := read_eq_ok_iff.1 hold
    obtain rfl := locate_eq_spotOf hplace
    exact .inl (read_eq_ok_iff.2 ⟨_, h.locate hplace, (h.off _ hne).trans hentry⟩)

theorem of_read (h : other.read path = .ok content) : SeesWhole path content disk other where
  whole seen hseen := by
    rw [h] at hseen
    exact .inl (Except.ok.inj hseen).symm
  steady _ _ := .inr h

theorem after {start : Disk} (h : SeesWhole path content disk other)
    (hstart : start.AgreesOff [] disk) : SeesWhole path content start other where
  whole seen hseen := by
    refine (h.whole seen hseen).imp_right fun hentry => ?_
    rw [spotOf_congr hstart.workingDirectory] at hentry
    exact (hstart.file_iff (by simp)).1 hentry
  steady old hold := by
    obtain ⟨place, hplace, hentry⟩ := read_eq_ok_iff.1 hold
    exact h.steady old
      (read_eq_ok_iff.2 ⟨place, hstart.locate hplace, (hstart.file_iff (by simp)).2 hentry⟩)

end SeesWhole

/-! ### The whole of a replacement -/

/-- The directories around a path that are made for it are not the place of the path itself. -/
theorem entry_ensureParent (hdots : ".." ∉ path.parts) (disk : Disk) :
    Disk.entry? (disk.ensureParent path).1 (disk.spotOf path) = disk.entry? (disk.spotOf path) := by
  unfold ensureParent
  cases hparent : path.parent? with
  | none => rfl
  | some parent =>
      dsimp only
      split
      · rfl
      · next htext =>
          have his := (Path.parent_cases hparent).resolve_left htext
          have hdots' := parent_dots his hdots
          refine (grownAlong_ensureDirectory hdots' (withoutSlashes_eq his.trimmed) disk).off _ ?_
          intro hsuffix
          have hlength := hsuffix.length_le
          rw [spotOf_eq hdots, spotOf_eq hdots', parent_origin his, his.names] at hlength
          have hpos := List.length_pos_iff.2 his.names_ne
          simp at hlength
          omega

/-- Whether a replacement comes as far as making its temporary file. -/
def Starts (disk : Disk) (mishap : Option Mishap) (mark : String) (path : Path) : Prop :=
  (disk.ensureParent path).2.isOk = true ∧ (disk.ensureParent path).1.CanStart mishap mark path

theorem replace_of_not_starts (content : List UInt8) (h : ¬disk.Starts mishap mark path) :
    ∃ failure passed, (∀ other ∈ passed, other = (disk.ensureParent path).1) ∧
      disk.replace mishap mark path content =
        { passed, disk := (disk.ensureParent path).1, outcome := .error failure } := by
  unfold Starts at h
  unfold replace
  generalize disk.ensureParent path = made at h ⊢
  obtain ⟨ready, failure | ok⟩ := made
  · exact ⟨failure, [], by simp, rfl⟩
  · obtain ⟨failure, hsame⟩ := replaceBeside_of_not_canStart fun hcan => h ⟨rfl, hcan⟩
    exact ⟨failure, [ready], by simp, hsame⟩

theorem course_replace (content : List UInt8) (h : disk.Starts mishap mark path) :
    Disk.entry? (disk.ensureParent path).1 (disk.spotOf (temporaryPath mark path)) ≠ some .directory ∧
      Course (disk.ensureParent path).1 (disk.spotOf (temporaryPath mark path)) path content
        (mishap.bind (Mishap.leftover? content)) (disk.replace mishap mark path content) := by
  have hplace := spotOf_congr (disk.agreesOff_ensureParent path).workingDirectory
    (temporaryPath mark path)
  unfold Starts at h
  unfold replace
  rw [← hplace]
  generalize disk.ensureParent path = made at h ⊢
  obtain ⟨ready, failure | ok⟩ := made
  · cases h.1
  · exact course_replaceBeside h.2

/-- No trace of a replacement: what stands at the target is as before, and no temporary file is left. -/
structure IsTraceless (mark : String) (path : Path) (disk other : Disk) : Prop where
  target : other.entry? (disk.spotOf path) = disk.entry? (disk.spotOf path)
  temporary : ∀ content, other.entry? (disk.spotOf (temporaryPath mark path)) ≠ some (.file content)

section Replace

variable (hmark : '/' ∉ mark.toList)

include hmark

theorem isTraceless_replace_iff (hfresh : disk.entry? (disk.spotOf (temporaryPath mark path)) = none)
    (hrefused : (disk.replace mishap mark path content).outcome.isOk = false) :
    IsTraceless mark path disk (disk.replace mishap mark path content).disk ↔
      ¬(disk.Starts mishap mark path ∧ (mishap.bind (Mishap.leftover? content)).isSome) ∧
        Disk.entry? (disk.ensureParent path).1 (disk.spotOf path) = disk.entry? (disk.spotOf path) := by
  by_cases hstarts : disk.Starts mishap mark path
  · obtain ⟨hentry, hcourse⟩ := course_replace content hstarts
    have htarget := (hcourse.differsAt_of_refused hentry hrefused).off _
      ((spotOf_temporaryPath_ne hmark disk path).symm)
    have htemporary := hcourse.entry_of_refused (spotOf_temporaryPath_ne_nil hmark disk path) hrefused
    rw [and_iff_right hstarts, Bool.not_eq_true, Option.isSome_eq_false_iff, Option.isNone_iff_eq_none]
    constructor
    · rintro ⟨hsame, hgone⟩
      refine ⟨?_, htarget.symm.trans hsame⟩
      rw [Option.eq_none_iff_forall_ne_some]
      intro part hpart
      rw [hpart] at htemporary
      exact hgone part htemporary
    · rintro ⟨hnone, hsame⟩
      refine ⟨htarget.trans hsame, fun part hpart => ?_⟩
      rw [htemporary, hnone] at hpart
      cases hpart
  · obtain ⟨failure, passed, -, hresult⟩ := replace_of_not_starts content hstarts
    rw [hresult]
    refine ⟨fun htraceless => ⟨fun h => hstarts h.1, htraceless.target⟩, fun h => ⟨h.2, ?_⟩⟩
    intro part hpart
    rw [(disk.agreesOff_ensureParent path).file_iff (by simp), hfresh] at hpart
    cases hpart

theorem replace_of_leftover (hstarts : disk.Starts mishap mark path) {part : List UInt8}
    (hpart : mishap.bind (Mishap.leftover? content) = some part) :
    (disk.replace mishap mark path content).outcome.isOk = false ∧
      Disk.entry? (disk.replace mishap mark path content).disk (disk.spotOf (temporaryPath mark path)) =
        some (.file part) := by
  obtain ⟨hentry, hcourse⟩ := course_replace content hstarts
  have hrefused := hcourse.not_isOk (by rw [hpart]; rfl)
  refine ⟨hrefused, ?_⟩
  rw [hcourse.entry_of_refused (spotOf_temporaryPath_ne_nil hmark disk path) hrefused, hpart]
  rfl

theorem read_replace (hok : (disk.replace mishap mark path content).outcome.isOk = true) :
    (disk.replace mishap mark path content).disk.read path = .ok content ∧
      Disk.entry? (disk.replace mishap mark path content).disk (disk.spotOf (temporaryPath mark path)) =
        none := by
  by_cases hstarts : disk.Starts mishap mark path
  · obtain ⟨hentry, hcourse⟩ := course_replace content hstarts
    refine hcourse.of_isOk hentry ?_ (spotOf_temporaryPath_ne_nil hmark disk path) hok
    rw [spotOf_congr (disk.agreesOff_ensureParent path).workingDirectory]
    exact (spotOf_temporaryPath_ne hmark disk path).symm
  · obtain ⟨failure, passed, -, hresult⟩ := replace_of_not_starts content hstarts
    rw [hresult] at hok
    cases hok

theorem seesWhole_replace :
    ∀ other ∈ (disk.replace mishap mark path content).passed ++
        [(disk.replace mishap mark path content).disk], SeesWhole path content disk other := by
  have hgrown := disk.agreesOff_ensureParent path
  have hne := (spotOf_temporaryPath_ne hmark disk path).symm
  rw [← spotOf_congr hgrown.workingDirectory path] at hne
  intro other hother
  by_cases hstarts : disk.Starts mishap mark path
  · obtain ⟨hentry, hcourse⟩ := course_replace content hstarts
    rcases List.mem_append.1 hother with hpassed | hlast
    · exact (SeesWhole.of_differsAt (hcourse.differsAt_passed hentry other hpassed) hne).after hgrown
    · obtain rfl := List.mem_singleton.1 hlast
      cases hok : (disk.replace mishap mark path content).outcome.isOk with
      | true => exact .of_read (read_replace hmark hok).1
      | false => exact (SeesWhole.of_differsAt (hcourse.differsAt_of_refused hentry hok) hne).after hgrown
  · obtain ⟨failure, passed, hpassed, hresult⟩ := replace_of_not_starts content hstarts
    rw [hresult] at hother
    obtain rfl : other = (disk.ensureParent path).1 := by
      rcases List.mem_append.1 hother with hmem | hlast
      · exact hpassed other hmem
      · exact List.mem_singleton.1 hlast
    exact (SeesWhole.of_differsAt (.refl (disk.spotOf (temporaryPath mark path)) _) hne).after hgrown

/-- **The traces of a replacement.** A refused one leaves none exactly when it did not come to writing a
temporary file and failing at it, and making the directories around the target did not make the target. -/
theorem replace_traces (hfresh : disk.entry? (disk.spotOf (temporaryPath mark path)) = none) :
    ((disk.replace mishap mark path content).outcome.isOk = false →
      (IsTraceless mark path disk (disk.replace mishap mark path content).disk ↔
        ¬(disk.Starts mishap mark path ∧ (mishap.bind (Mishap.leftover? content)).isSome) ∧
          Disk.entry? (disk.ensureParent path).1 (disk.spotOf path) = disk.entry? (disk.spotOf path))) ∧
    (disk.Starts mishap mark path → ∀ part, mishap.bind (Mishap.leftover? content) = some part →
      (disk.replace mishap mark path content).outcome.isOk = false ∧
        Disk.entry? (disk.replace mishap mark path content).disk
          (disk.spotOf (temporaryPath mark path)) = some (.file part)) ∧
    (".." ∉ path.parts →
      Disk.entry? (disk.ensureParent path).1 (disk.spotOf path) = disk.entry? (disk.spotOf path)) ∧
    ((disk.replace mishap mark path content).outcome.isOk = true →
      (disk.replace mishap mark path content).disk.read path = .ok content ∧
        Disk.entry? (disk.replace mishap mark path content).disk
          (disk.spotOf (temporaryPath mark path)) = none) ∧
    ∀ other ∈ (disk.replace mishap mark path content).passed ++
        [(disk.replace mishap mark path content).disk], SeesWhole path content disk other :=
  ⟨isTraceless_replace_iff hmark hfresh, fun hstarts _ => replace_of_leftover hmark hstarts,
    fun hdots => entry_ensureParent hdots disk, read_replace hmark, seesWhole_replace hmark⟩

end Replace

/-- The device is full before a byte is written. -/
def fullDevice : Mishap :=
  .writing 0 ⟨.other, "No space left on device (os error 28)"⟩

/-- A full device leaves an empty temporary file, and a path that goes back by `..` is a directory after
a replacement that was refused, although nothing was there before. -/
theorem refusals_leave_traces :
    ((Disk.empty.replace (some fullDevice) "0f" ⟨"/a"⟩ [99]).outcome.isOk = false ∧
      Disk.empty.entry? (Disk.empty.spotOf (temporaryPath "0f" ⟨"/a"⟩)) = none ∧
      Disk.entry? (Disk.empty.replace (some fullDevice) "0f" ⟨"/a"⟩ [99]).disk
        (Disk.empty.spotOf (temporaryPath "0f" ⟨"/a"⟩)) = some (.file [])) ∧
    (Disk.empty.replace none "0f" ⟨"/x/y/.."⟩ [99]).outcome.isOk = false ∧
      Disk.empty.entry? (Disk.empty.spotOf ⟨"/x/y/.."⟩) = none ∧
      Disk.entry? (Disk.empty.replace none "0f" ⟨"/x/y/.."⟩ [99]).disk
        (Disk.empty.spotOf ⟨"/x/y/.."⟩) = some .directory := by
  decide +kernel

theorem full_device_leaves_trace :
    '/' ∉ "0f".toList ∧ Disk.empty.entry? (Disk.empty.spotOf (temporaryPath "0f" ⟨"/a"⟩)) = none ∧
      (Disk.empty.replace (some fullDevice) "0f" ⟨"/a"⟩ [99]).outcome.isOk = false ∧
      ¬IsTraceless "0f" ⟨"/a"⟩ .empty (Disk.empty.replace (some fullDevice) "0f" ⟨"/a"⟩ [99]).disk := by
  have hmark : '/' ∉ "0f".toList := by decide +kernel
  have hfresh : Disk.empty.entry? (Disk.empty.spotOf (temporaryPath "0f" ⟨"/a"⟩)) = none := by
    decide +kernel
  have hrefused : (Disk.empty.replace (some fullDevice) "0f" ⟨"/a"⟩ [99]).outcome.isOk = false := by
    decide +kernel
  have hstarts : Disk.empty.Starts (some fullDevice) "0f" ⟨"/a"⟩ :=
    ⟨by decide +kernel, nofun, by decide +kernel⟩
  refine ⟨hmark, hfresh, hrefused, fun htraceless => ?_⟩
  exact (((replace_traces hmark hfresh).1 hrefused).1 htraceless).1 ⟨hstarts, rfl⟩

end Disk

end ComponentTags
