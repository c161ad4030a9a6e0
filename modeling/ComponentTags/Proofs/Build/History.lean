import ComponentTags.Proofs.Artifact.Shapes
import ComponentTags.Proofs.Build.Settling
import ComponentTags.Proofs.Build.Strides

/-!
Histories. Builds for either kind of source follow one another over the same cache and the same
component directory, and files may be deleted from the directory at any time. A module holds what was
written there last.
-/

namespace ComponentTags

/-- The disk after the file that a path names was deleted. -/
def Disk.deleteFile (disk : Disk) (path : Path) : Disk :=
  match disk.locate path with
  | .error _ => disk
  | .ok spot =>
      match disk.entry? spot with
      | some (.file _) => disk.erase spot
      | _ => disk

namespace Build

/-- A change to the component directory: the turn of a build, or a file in the directory is deleted. -/
inductive Event where
  | turn (setting : BuildSetting) (turn : Turn)
  | deletion (name : String)

/-- The settings whose component modules go to that directory. -/
def BuildsIn (directory : Path) (setting : BuildSetting) : Prop :=
  ∃ dialect renderer start, setting.workshop = .of dialect directory renderer start

/--
The histories of the component directory in `directory`, the last event first, with the build at work
and its setting. It starts with an empty cache and an empty component directory.
-/
inductive History (directory : Path) : List Event → BuildSetting → Build → Prop where
  | start {setting : BuildSetting} {cache : Cache} {disk : Disk}
      (hsetting : BuildsIn directory setting) (hcache : cache.entries = ∅)
      (hdisk : ∀ name, IsPlainName name →
        disk.entry? (disk.spotOf (directory / "com" / name)) = none) :
      History directory [] setting (Build.start cache disk)
  | fresh {events : List Event} {setting setting' : BuildSetting} {build : Build}
      (hhistory : History directory events setting build)
      (hsetting : BuildsIn directory setting') :
      History directory events setting' (Build.start build.cache build.disk)
  | begin {events : List Event} {setting : BuildSetting} {build : Build}
      (hhistory : History directory events setting build) (references : List Reference) :
      History directory events setting (build.begin (references.map (named setting)))
  | step {events : List Event} {setting : BuildSetting} {build next : Build} (index : Nat)
      (hhistory : History directory events setting build)
      (hnext : build.step? setting index = some next) :
      History directory (.turn setting ⟨build, index⟩ :: events) setting next
  | deletion {events : List Event} {setting : BuildSetting} {build : Build} (name : String)
      (hhistory : History directory events setting build) (hname : IsPlainName name) :
      History directory (.deletion name :: events) setting
        { build with disk := build.disk.deleteFile (directory / "com" / name) }

/-- The module that was written last under a name since a file of that name was deleted. -/
def lastDeed? (name : String) : List Event → Option (Workshop × Deed)
  | [] => none
  | .turn setting turn :: events =>
      match turn.deed? setting with
      | some deed =>
          if setting.workshop.naming.moduleName deed.reference = name ∧
              turn.before.disk.takes setting.workshop deed = true then
            some (setting.workshop, deed)
          else lastDeed? name events
      | none => lastDeed? name events
  | .deletion other :: events => if other = name then none else lastDeed? name events

/-- Whether a path holds the module that was written there last, and no file if none was. -/
def Reflects (disk : Disk) (path : Path) : Option (Workshop × Deed) → Prop
  | some (workshop, deed) => disk.read path = .ok (deed.content workshop)
  | none => ∀ content, disk.entry? (disk.spotOf path) ≠ some (.file content)

section Histories

variable {directory : Path} {events : List Event} {setting : BuildSetting} {build next : Build}
  {disk other : Disk} {path : Path} {last : Option (Workshop × Deed)} {name : String}
  {content : List UInt8}

theorem BuildsIn.isProper (h : BuildsIn directory setting) :
    setting.workshop.naming.IsProper := by
  obtain ⟨dialect, renderer, start, heq⟩ := h
  rw [heq]
  exact Naming.isProper_of _ dialect start

theorem BuildsIn.path_eq (h : BuildsIn directory setting) (reference : Reference) :
    (setting.workshop.naming.identity reference).path =
      directory / "com" / setting.workshop.naming.moduleName reference := by
  obtain ⟨dialect, renderer, start, heq⟩ := h
  rw [heq]
  rfl

theorem History.buildsIn (h : History directory events setting build) :
    BuildsIn directory setting := by
  induction h with
  | start hsetting _ _ => exact hsetting
  | fresh _ hsetting _ => exact hsetting
  | begin _ _ ih => exact ih
  | step _ _ _ ih => exact ih
  | deletion _ _ _ ih => exact ih

theorem History.allFaithful (h : History directory events setting build) :
    AllFaithful setting build := by
  induction h with
  | start _ _ _ => exact allFaithful_start _ _ _
  | fresh _ _ _ => exact allFaithful_start _ _ _
  | begin _ references ih => exact ih.begin references
  | step index _ hnext ih =>
      obtain ⟨visit, children, stage, hstep⟩ := exists_advances hnext
      exact ih.advance hstep
  | deletion _ _ _ ih => exact ih

theorem History.exists_sweep (h : History directory events setting build) (indices : List Nat) :
    ∃ events, History directory events setting (build.sweep setting indices) := by
  induction indices generalizing build events with
  | nil => exact ⟨events, h⟩
  | cons index indices ih =>
      rw [sweep]
      cases hnext : build.step? setting index with
      | none => exact ih h
      | some next => exact ih (h.step index hnext)

theorem History.step_sweep {index : Nat} (h : History directory events setting build)
    (hnext : (build.step? setting index).isSome) :
    History directory (.turn setting ⟨build, index⟩ :: events) setting
      (build.sweep setting [index]) := by
  obtain ⟨next, hnext⟩ := Option.isSome_iff_exists.1 hnext
  rw [sweep, hnext]
  exact h.step index hnext

/-- A build that starts when a file was deleted. -/
theorem History.fresh_of_deletion {setting' : BuildSetting}
    (h : History directory events setting build) (hname : IsPlainName name)
    (hsetting : BuildsIn directory setting') :
    History directory (.deletion name :: events) setting'
      (Build.start build.cache (build.disk.deleteFile (directory / "com" / name))) :=
  (h.deletion name hname).fresh hsetting

theorem history_start (hsetting : BuildsIn directory setting) :
    History directory [] setting (Build.start .inMemory .empty) := by
  refine .start hsetting rfl fun name hname => ?_
  obtain ⟨parts, hparts⟩ := (directory / "com").exists_parts_join hname
  obtain ⟨spot, hspot⟩ := Disk.empty.spotOf_eq_cons hname hparts
  rw [hspot]
  simp [Disk.entry?, Disk.empty]

theorem History.turn (h : History directory events setting build) {setting' : BuildSetting}
    {turn : Turn} (hturn : .turn setting' turn ∈ events) :
    BuildsIn directory setting' ∧ AllFaithful setting' turn.before := by
  induction h with
  | start _ _ _ => cases hturn
  | fresh _ _ ih => exact ih hturn
  | begin _ _ ih => exact ih hturn
  | step index hhistory _ ih =>
      rcases List.mem_cons.1 hturn with heq | hold
      · cases heq
        exact ⟨hhistory.buildsIn, hhistory.allFaithful⟩
      · exact ih hold
  | deletion _ _ _ ih =>
      rcases List.mem_cons.1 hturn with heq | hold
      · cases heq
      · exact ih hold

/-! ### What a module holds -/

theorem Reflects.agreesOff (h : Reflects disk path last) {names : List String}
    (hagrees : disk.AgreesOff names other) (hname : IsPlainName name) {parts : List String}
    (hparts : path.parts = parts ++ [name]) (hnames : name ∉ names) :
    Reflects other path last := by
  cases last with
  | some written => exact hagrees.read hname hparts hnames h
  | none =>
      intro content hfile
      rw [Disk.spotOf_congr hagrees.workingDirectory] at hfile
      exact h content ((hagrees.file_iff (disk.head_spotOf_ne hname hparts hnames)).1 hfile)

theorem Reflects.read_iff (h : Reflects disk path last) :
    disk.read path = .ok content ↔
      ∃ workshop deed, last = some (workshop, deed) ∧ content = deed.content workshop := by
  cases last with
  | some written =>
      obtain ⟨workshop, deed⟩ := written
      have hread : disk.read path = .ok (deed.content workshop) := h
      rw [hread]
      constructor
      · intro heq
        exact ⟨workshop, deed, rfl, (Except.ok.inj heq).symm⟩
      · rintro ⟨workshop', deed', heq, rfl⟩
        cases heq
        rfl
  | none =>
      constructor
      · intro hread
        obtain ⟨spot, hspot, hentry⟩ := Disk.read_eq_ok_iff.1 hread
        rw [Disk.locate_eq_spotOf hspot] at hentry
        exact absurd hentry (h content)
      · rintro ⟨workshop, deed, heq, -⟩
        cases heq

/-- A step writes a module or leaves it as it was. -/
theorem Reflects.step (hsetting : BuildsIn directory setting) (hname : IsModuleName name)
    {index : Nat} (hnext : build.step? setting index = some next)
    (h : Reflects build.disk (directory / "com" / name) (lastDeed? name events)) :
    Reflects next.disk (directory / "com" / name)
      (lastDeed? name (.turn setting ⟨build, index⟩ :: events)) := by
  obtain ⟨visit, children, stage, hstep⟩ := exists_advances hnext
  have hproper := hsetting.isProper
  obtain ⟨parts, hparts⟩ := (directory / "com").exists_parts_join hname.isPlainName
  have hturn : Turn.deed? setting ⟨build, index⟩ = visit.deed? setting := by
    rw [Turn.deed?, Turn.visit?, hstep.found]
    rfl
  rw [lastDeed?, hturn, hstep.disk]
  cases visit.deed? setting with
  | none => exact h
  | some deed =>
      have hattempt := Disk.attempt_perform hproper build.disk deed
      have hside := hproper.notMem_sideNames deed.reference hname
      dsimp only
      split
      · next htakes =>
          obtain ⟨rfl, htakes⟩ := htakes
          change (build.disk.perform setting.workshop (some deed)).1.read _ = .ok _
          rw [← hsetting.path_eq deed.reference]
          exact hattempt.read htakes
      · next hother =>
          by_cases heq : setting.workshop.naming.moduleName deed.reference = name
          · have hrefused : build.disk.takes setting.workshop deed = false := by
              simpa [heq] using hother
            exact h.agreesOff (hattempt.refused hrefused) hname.isPlainName hparts hside
          · refine h.agreesOff hattempt.agrees hname.isPlainName hparts ?_
            rw [List.mem_cons, not_or]
            exact ⟨Ne.symm heq, hside⟩

theorem agreesOff_deleteFile (hname : IsPlainName name) {parts : List String}
    (hparts : path.parts = parts ++ [name]) (disk : Disk) :
    disk.AgreesOff [name] (disk.deleteFile path) := by
  unfold Disk.deleteFile
  split
  · exact .refl _ disk
  · next spot hspot =>
      split
      · next content hentry =>
          obtain ⟨rest, hrest⟩ := disk.spotOf_eq_cons hname hparts
          rw [Disk.locate_eq_spotOf hspot, hrest] at hentry ⊢
          exact Disk.agreesOff_erase (by simp [hentry])
      · exact .refl _ disk

theorem Reflects.deleted (hname : IsPlainName name) {parts : List String}
    (hparts : path.parts = parts ++ [name]) (h : Reflects disk path last) :
    Reflects (disk.deleteFile path) path none := by
  have hspot := Disk.spotOf_congr
    (agreesOff_deleteFile hname hparts disk).workingDirectory path
  intro content hfile
  rw [hspot] at hfile
  obtain ⟨rest, hrest⟩ := disk.spotOf_eq_cons hname hparts
  unfold Disk.deleteFile at hfile
  split at hfile
  · next fault hfault =>
      cases last with
      | none => exact h content hfile
      | some written =>
          obtain ⟨spot, hlocated, -⟩ := Disk.read_eq_ok_iff.1 (show disk.read path = .ok _ from h)
          rw [hlocated] at hfault
          cases hfault
  · next spot hlocated =>
      obtain rfl := Disk.locate_eq_spotOf hlocated
      split at hfile
      · rw [hrest, Disk.entry_erase] at hfile
        simp at hfile
      · next hnone => exact hnone content hfile

/-- **A module holds what was written there last.** -/
theorem History.reflects (h : History directory events setting build)
    (hname : IsModuleName name) :
    Reflects build.disk (directory / "com" / name) (lastDeed? name events) := by
  induction h with
  | start _ _ hdisk =>
      intro content hfile
      rw [Build.start, hdisk name hname.isPlainName] at hfile
      cases hfile
  | fresh _ _ ih => exact ih
  | begin _ _ ih => exact ih
  | step index hhistory hnext ih => exact ih.step hhistory.buildsIn hname hnext
  | deletion other _ hother ih =>
      rw [lastDeed?]
      split
      · next heq =>
          subst heq
          obtain ⟨parts, hparts⟩ := (directory / "com").exists_parts_join hother
          exact ih.deleted hother hparts
      · next hne =>
          obtain ⟨parts, hparts⟩ := (directory / "com").exists_parts_join hname.isPlainName
          obtain ⟨parts', hparts'⟩ := (directory / "com").exists_parts_join hother
          exact ih.agreesOff (agreesOff_deleteFile hother hparts' _) hname.isPlainName hparts
            (by simpa using Ne.symm hne)

theorem History.read_of_lastDeed? (h : History directory events setting build)
    {reference : Reference} {workshop : Workshop} {deed : Deed}
    (hlast : lastDeed? (setting.workshop.naming.moduleName reference) events =
      some (workshop, deed)) :
    build.disk.read (setting.workshop.naming.identity reference).path =
      .ok (deed.content workshop) := by
  rw [h.buildsIn.path_eq reference]
  exact (h.reflects (h.buildsIn.isProper.isModuleName reference)).read_iff.2 ⟨_, _, hlast, rfl⟩

theorem exists_of_lastDeed? {workshop : Workshop} {deed : Deed}
    (h : lastDeed? name events = some (workshop, deed)) :
    ∃ setting turn, .turn setting turn ∈ events ∧ setting.workshop = workshop ∧
      turn.deed? setting = some deed ∧
      setting.workshop.naming.moduleName deed.reference = name := by
  induction events with
  | nil => cases h
  | cons event events ih =>
      have hold : lastDeed? name events = some (workshop, deed) → ∃ setting turn,
          .turn setting turn ∈ event :: events ∧ setting.workshop = workshop ∧
            turn.deed? setting = some deed ∧
            setting.workshop.naming.moduleName deed.reference = name := by
        intro hlast
        obtain ⟨setting, turn, hturn, hrest⟩ := ih hlast
        exact ⟨setting, turn, List.mem_cons_of_mem _ hturn, hrest⟩
      cases event with
      | deletion other =>
          rw [lastDeed?] at h
          split at h
          · cases h
          · exact hold h
      | turn setting turn =>
          rw [lastDeed?] at h
          split at h
          · next written hwritten =>
              split at h
              · next htakes =>
                  cases h
                  exact ⟨setting, turn, List.mem_cons_self, rfl, hwritten, htakes.1⟩
              · exact hold h
          · exact hold h

end Histories

/-! ### Histories of runs -/

/-- The events of some steps, the last one first; a visit that has to wait is passed over. -/
def sweepEvents (setting : BuildSetting) (build : Build) : List Nat → List Event
  | [] => []
  | index :: rest =>
      match build.step? setting index with
      | none => sweepEvents setting build rest
      | some next => sweepEvents setting next rest ++ [.turn setting ⟨build, index⟩]

theorem History.sweep {directory : Path} {events : List Event} {setting : BuildSetting}
    {build : Build} (h : History directory events setting build) (indices : List Nat) :
    History directory (sweepEvents setting build indices ++ events) setting
      (build.sweep setting indices) := by
  induction indices generalizing build events with
  | nil => exact h
  | cons index indices ih =>
      rw [Build.sweep, sweepEvents]
      cases hnext : build.step? setting index with
      | none => exact ih h
      | some next =>
          rw [List.append_assoc]
          exact ih (h.step index hnext)

/-- The visits that take the strides of a run, or wait instead, the last one first. -/
def strideVisits (setting : BuildSetting) (build : Build) : List Nat → List Visit
  | [] => []
  | index :: rest =>
      match build.visits[index]? with
      | none => strideVisits setting build rest
      | some visit => strideVisits setting (build.stride setting index visit) rest ++ [visit]

/-- The module that a visit writes under a name in its next step. -/
def writes? (setting : BuildSetting) (name : String) (visit : Visit) : Option (Workshop × Deed) :=
  (visit.deed? setting).bind fun deed =>
    if setting.workshop.naming.moduleName deed.reference = name then some (setting.workshop, deed)
    else none

section Strides

variable {setting : BuildSetting} {held : List Reference} {build last : Build} {disk : Disk}
  {indices : List Nat} {events : List Event} {name : String}

theorem strideVisits_of_none {index : Nat} (hnone : build.visits[index]? = none) :
    strideVisits setting build (index :: indices) = strideVisits setting build indices := by
  rw [strideVisits, hnone]

theorem strideVisits_of_some {index : Nat} {visit : Visit}
    (hvisit : build.visits[index]? = some visit) :
    strideVisits setting build (index :: indices) =
      strideVisits setting (build.stride setting index visit) indices ++ [visit] := by
  rw [strideVisits, hvisit]

/-- A disk has the modules that a history of its folder wrote. -/
theorem IsReady.hold {directory : Path} {reference : Reference} {workshop : Workshop} {deed : Deed}
    (h : IsReady setting held build.disk) (hhistory : History directory events setting build)
    (hlast : lastDeed? (setting.workshop.naming.moduleName reference) events =
      some (workshop, deed)) : IsReady setting (reference :: held) build.disk :=
  { h with
    holds := fun other hmem => by
      rcases List.mem_cons.1 hmem with rfl | hold
      · exact Disk.holds_of_read (hhistory.read_of_lastDeed? hlast)
      · exact h.holds other hold }

/-- What there is to know of the events of a run can be told from the visits that take its strides, as
long as it is nothing for the visits that wait. -/
theorem IsReady.filterMap_sweepEvents {α : Type} {ofEvent : Event → Option α}
    {ofVisit : Visit → Option α}
    (hturn : ∀ turn visit, turn.visit? = some visit →
      (Deed.change setting.workshop (visit.deed? setting) turn.before.disk).2 = true →
        ofEvent (.turn setting turn) = ofVisit visit)
    (hwaits : ∀ visit, visit.deed? setting = none → visit.stage ≠ .requesting →
      ofVisit visit = none)
    (h : IsReady setting held disk) (hfaithful : AllFaithful setting build)
    (hlast : strides? setting held build indices = some last) :
    (sweepEvents setting (build.withDisk disk) indices).filterMap ofEvent =
      (strideVisits setting build indices).filterMap ofVisit := by
  induction indices generalizing build disk with
  | nil => rfl
  | cons index indices ih =>
      rw [sweepEvents]
      cases hvisit : build.visits[index]? with
      | none =>
          rw [strides?_of_none hvisit] at hlast
          rw [step?_eq_none hvisit, strideVisits_of_none hvisit]
          exact ih h hfaithful hlast
      | some visit =>
          rw [strides?_of_some hvisit] at hlast
          split at hlast
          · next hsmooth =>
              obtain ⟨after, hstride, hready, hnext⟩ := h.turn hfaithful hvisit hsmooth
              have hok := (h.change (hfaithful index visit hvisit) hsmooth).1
              have hrest := ih hready hnext hlast
              rw [← hstride] at hrest
              rw [strideVisits_of_some hvisit, List.filterMap_append, ← hrest]
              cases hstep : (build.withDisk disk).step? setting index with
              | none =>
                  have hfound : (build.withDisk disk).visits[index]? = some visit := hvisit
                  obtain ⟨hdeed, hstage⟩ := waits_of_step?_eq_none hfound hstep
                  simp [hwaits visit hdeed hstage]
              | some next =>
                  have hevent := hturn ⟨build.withDisk disk, index⟩ visit hvisit hok
                  simp only [Option.getD_some, List.filterMap_append, List.filterMap_cons,
                    List.filterMap_nil, hevent]
          · cases hlast

theorem lastDeed?_append {recent : List Event}
    (hturns : ∀ event ∈ recent, ∃ setting turn, event = .turn setting turn) (name : String)
    (events : List Event) :
    lastDeed? name (recent ++ events) =
      (recent.filterMap fun event => lastDeed? name [event]).head?.or (lastDeed? name events) := by
  induction recent with
  | nil => rfl
  | cons event recent ih =>
      obtain ⟨setting, turn, rfl⟩ := hturns event List.mem_cons_self
      have hrest := ih fun other hother => hturns other (List.mem_cons_of_mem _ hother)
      rw [List.cons_append, List.filterMap_cons, lastDeed?, lastDeed?]
      cases turn.deed? setting with
      | none => exact hrest
      | some deed =>
          dsimp only
          split
          · rfl
          · exact hrest

theorem exists_turn_of_mem_sweepEvents {event : Event}
    (h : event ∈ sweepEvents setting build indices) : ∃ turn, event = .turn setting turn := by
  induction indices generalizing build with
  | nil => cases h
  | cons index indices ih =>
      rw [sweepEvents] at h
      split at h
      · exact ih h
      · rcases List.mem_append.1 h with hmem | hmem
        · exact ih hmem
        · exact ⟨_, List.mem_singleton.1 hmem⟩

/-- The module that was written last under a name in a run, or before it. -/
theorem IsReady.lastDeed?_sweepEvents (h : IsReady setting held disk)
    (hfaithful : AllFaithful setting build)
    (hlast : strides? setting held build indices = some last) (name : String)
    (events : List Event) :
    lastDeed? name (sweepEvents setting (build.withDisk disk) indices ++ events) =
      ((strideVisits setting build indices).filterMap (writes? setting name)).head?.or
        (lastDeed? name events) := by
  rw [lastDeed?_append fun event hevent => ⟨setting, exists_turn_of_mem_sweepEvents hevent⟩]
  rw [h.filterMap_sweepEvents ?_ ?_ hfaithful hlast]
  · intro turn visit hvisit hok
    rw [lastDeed?, Turn.deed?, hvisit, writes?, Option.bind_some]
    cases hdeed : visit.deed? setting with
    | none => rfl
    | some deed =>
        rw [hdeed] at hok
        have htakes : turn.before.disk.takes setting.workshop deed = true :=
          Disk.takes_of_perform hok
        simp [htakes, lastDeed?]
  · intro visit hdeed _
    rw [writes?, hdeed]
    rfl

/-- A history goes on by the strides of a run, if the disk is ready for it. -/
theorem History.exists_last {directory : Path}
    (hhistory : History directory events setting (build.withDisk disk))
    (h : IsReady setting held disk) (hlast : strides? setting held build indices = some last) :
    ∃ after, (build.withDisk disk).sweep setting indices = last.withDisk after ∧
      IsReady setting held after ∧
      History directory (sweepEvents setting (build.withDisk disk) indices ++ events) setting
        (last.withDisk after) ∧
      ∀ name, lastDeed? name (sweepEvents setting (build.withDisk disk) indices ++ events) =
        ((strideVisits setting build indices).filterMap (writes? setting name)).head?.or
          (lastDeed? name events) := by
  have hfaithful : AllFaithful setting build := hhistory.allFaithful
  obtain ⟨after, hsweep, hready⟩ := h.sweep hfaithful hlast
  have hnext := hhistory.sweep indices
  rw [hsweep] at hnext
  exact ⟨after, hsweep, hready, hnext,
    fun name => h.lastDeed?_sweepEvents hfaithful hlast name events⟩

end Strides

end Build

end ComponentTags
