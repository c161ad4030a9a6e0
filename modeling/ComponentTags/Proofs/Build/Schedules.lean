import ComponentTags.Proofs.Build.Outcomes

/-!
Schedules. Which visit takes its turn when has no part in what a fresh build comes to: which components
come up, what becomes of each and what is written for it follow from what the build starts from, and the
modules of different components can be written in any order.
-/

namespace ComponentTags.Build

variable {call : Call} {directory : Path} {build build' : Build}

/-- **What a fresh build comes to does not depend on the order of turns.** -/
theorem same_result_of_schedules (horderly : call.IsOrderly directory)
    (hsteps : Relation.ReflTransGen (StepsTo call.setting) call.opening build)
    (hover : build.isFinished = true)
    (hsteps' : Relation.ReflTransGen (StepsTo call.setting) call.opening build')
    (hover' : build'.isFinished = true) :
    build.disk = build'.disk ∧ build.cache = build'.cache ∧
      ∃ report report', build.reports = [report] ∧ build'.reports = [report'] ∧
        report.fetched = report'.fetched ∧ report.cacheHits = report'.cacheHits ∧
        report.failed = report'.failed ∧ report.writeErrors = report'.writeErrors ∧
        (call.IsAcyclic → report.cycles = 0 ∧ report'.cycles = 0) := by
  obtain ⟨settled, lost, h⟩ := exists_outcome horderly hsteps hover
  obtain ⟨settled', lost', h'⟩ := exists_outcome horderly hsteps' hover'
  have hperm := h.perm h'
  obtain ⟨cycles, hreports, hacyclic⟩ := h.reports
  obtain ⟨cycles', hreports', hacyclic'⟩ := h'.reports
  rw [call.tally_perm hperm, (h.lost_perm h').length_eq] at hreports
  refine ⟨by rw [h.disk_eq horderly hperm, h'.disk], h.cache_eq h', _, _, hreports, hreports',
    rfl, rfl, rfl, rfl, fun hno => ?_⟩
  simp [Report.add, call.cycles_tally, hacyclic hno, hacyclic' hno]

/-! ### Entries that share what they need -/

/-- A disk with an empty folder of components. -/
def folderDisk : Disk :=
  (Disk.empty.put ["w"] .directory).put ["com", "w"] .directory

theorem isTree_folderDisk : folderDisk.IsTree := by
  have hnone : ∀ name rest, Disk.empty.entry? (name :: rest) = none := by
    simp [Disk.empty, Disk.entry?]
  refine (Disk.isTree_empty.put rfl (hnone _ _) .directory).put ?_ ?_ .directory
  · simp [Disk.entry_put]
  · simp [Disk.entry_put, hnone]

theorem isDirectory_folderDisk :
    folderDisk.isDirectory menuSetting.workshop.naming.directory = true := by
  decide

theorem spotOf_folderDisk :
    folderDisk.spotOf menuSetting.workshop.naming.directory = ["com", "w"] :=
  rfl

theorem isReady_folderDisk : IsReady menuSetting [] folderDisk :=
  { isReady_menuSetting with
    hasRoom := Disk.hasRoom_of_isDirectory isTree_folderDisk isDirectory_folderDisk fun name => by
      have hnone : Disk.empty.entry? [name, "com", "w"] = none := by simp [Disk.empty, Disk.entry?]
      rw [spotOf_folderDisk]
      simp [folderDisk, Disk.entry_put, hnone]
    holds := nofun }

/-- The folder is still ready when the module of a component was put there. -/
theorem isReady_put_folderDisk {reference : Reference}
    (hshort : (menuSetting.workshop.naming.identity reference).identifier.utf8ByteSize ≤
      Naming.maxIdentifierSize)
    (hnew : folderDisk.entry? [menuSetting.workshop.naming.moduleName reference, "com", "w"] = none) :
    IsReady menuSetting [reference] (folderDisk.put
      [menuSetting.workshop.naming.moduleName reference, "com", "w"] (.file [])) := by
  have hready := fun hnew => isReady_folderDisk.put isDirectory_folderDisk hshort hnew []
  rw [spotOf_folderDisk] at hready
  exact hready hnew

/-- The same with a module of the component `app`. -/
def entryDisk : Disk :=
  folderDisk.put [menuSetting.workshop.naming.moduleName ⟨"ui", "app", "1"⟩, "com", "w"] (.file [])

/-- Two entries are asked for that need `menu`. They are there as the cache says, and `menu` is not. -/
def sharingCall : Call where
  setting := menuSetting
  cache :=
    (Cache.inMemory.recordSuccess (menuSetting.workshop.naming.key ⟨"ui", "app", "1"⟩)
      [⟨"menu", "1"⟩]).recordSuccess (menuSetting.workshop.naming.key ⟨"ui", "page", "1"⟩)
        [⟨"menu", "1"⟩]
  disk :=
    entryDisk.put [menuSetting.workshop.naming.moduleName ⟨"ui", "page", "1"⟩, "com", "w"] (.file [])
  references := [⟨"ui", "app", "1"⟩, ⟨"ui", "page", "1"⟩]

/-- All that comes up. -/
def sharingList : List Reference :=
  ⟨"ui", "menu", "1"⟩ :: sharingCall.references

set_option maxRecDepth 100000 in
theorem sharingCall_computed :
    sharingCall.ClosedBy sharingList ∧
      (∀ first ∈ sharingList, ∀ second ∈ sharingList,
        (sharingCall.naming.identity first).identifier =
          (sharingCall.naming.identity second).identifier → first = second) ∧
      (∀ reference ∈ sharingList, ∀ dep ∈ sharingCall.deps reference,
        reference.child dep ∉ sharingCall.references) ∧
      folderDisk.entry?
        [menuSetting.workshop.naming.moduleName ⟨"ui", "app", "1"⟩, "com", "w"] = none ∧
      entryDisk.entry? ["com", "w"] = some .directory ∧
      entryDisk.entry?
        [menuSetting.workshop.naming.moduleName ⟨"ui", "page", "1"⟩, "com", "w"] = none ∧
      (sharingCall.after [0, 0]).visits[2]?.map Visit.ancestors =
        some [sharingCall.naming.key ⟨"ui", "app", "1"⟩] ∧
      (sharingCall.after [1, 1]).visits[2]?.map Visit.ancestors =
        some [sharingCall.naming.key ⟨"ui", "page", "1"⟩] := by
  decide +kernel

theorem isTree_entryDisk : entryDisk.IsTree := by
  obtain ⟨-, -, -, hnew, -⟩ := sharingCall_computed
  exact isTree_folderDisk.put (by simp [folderDisk, Disk.entry_put]) hnew (.file [])

theorem isTree_sharingCall : sharingCall.disk.IsTree := by
  obtain ⟨-, -, -, -, hfolder, hnew, -⟩ := sharingCall_computed
  exact isTree_entryDisk.put hfolder hnew (.file [])

theorem isOrderly_sharingCall : sharingCall.IsOrderly ⟨"/w"⟩ := by
  obtain ⟨hclosed, hdistinct, hapart, -⟩ := sharingCall_computed
  exact hclosed.isOrderly ⟨.jsx, "r", "c", rfl⟩ ⟨isTree_sharingCall, .inl (by decide)⟩ hdistinct
    hapart

theorem exists_finished_sharing (turns : List Nat) :
    ∃ last, Relation.ReflTransGen (StepsTo sharingCall.setting) (sharingCall.after turns) last ∧
      last.isFinished = true := by
  refine sharingCall.exists_finished (by decide) (fun root _ => finite_menuSetting ?_ root)
    (sharingCall.steps_after turns)
  intro key deps hentry
  simp only [sharingCall, Cache.recordSuccess, Cache.get?, Std.ExtTreeMap.getElem?_insert] at hentry
  split at hentry
  · cases hentry
    exact List.Subset.refl _
  · split at hentry
    · cases hentry
      exact List.Subset.refl _
    · simp [Cache.inMemory] at hentry

/-- It does not matter below which of the two entries `menu` comes up. -/
theorem same_result_of_sharing :
    sharingCall.IsOrderly ⟨"/w"⟩ ∧
      (sharingCall.after [0, 0]).visits[2]?.map Visit.ancestors =
        some [sharingCall.naming.key ⟨"ui", "app", "1"⟩] ∧
      (sharingCall.after [1, 1]).visits[2]?.map Visit.ancestors =
        some [sharingCall.naming.key ⟨"ui", "page", "1"⟩] ∧
      ∃ build build',
        Relation.ReflTransGen (StepsTo sharingCall.setting) (sharingCall.after [0, 0]) build ∧
        build.isFinished = true ∧
        Relation.ReflTransGen (StepsTo sharingCall.setting) (sharingCall.after [1, 1]) build' ∧
        build'.isFinished = true ∧ build.disk = build'.disk ∧ build.cache = build'.cache := by
  obtain ⟨-, -, -, -, -, -, hunder, hunder'⟩ := sharingCall_computed
  obtain ⟨build, hsteps, hover⟩ := exists_finished_sharing [0, 0]
  obtain ⟨build', hsteps', hover'⟩ := exists_finished_sharing [1, 1]
  obtain ⟨hdisk, hcache, -⟩ := same_result_of_schedules isOrderly_sharingCall
    ((sharingCall.steps_after [0, 0]).trans hsteps) hover
    ((sharingCall.steps_after [1, 1]).trans hsteps') hover'
  exact ⟨isOrderly_sharingCall, hunder, hunder', build, build', hsteps, hover, hsteps', hover', hdisk,
    hcache⟩

/-! ### Calls that are not orderly -/

/-- Two components are asked for whose digests begin alike, so they have one identifier. The endpoint
serves the first one alone. -/
def collidingCall : Call where
  setting :=
    { menuSetting with
      registry :=
        { rules := (∅ : TextMap TagRule).insert "Widget" { keyword := "def", api := default } }
      endpoint := fun request =>
        if request.reference.version = "1+..+.-+.0" then
          some (.ok ({ runtime := "function () \x7b\x7d", deps := [] }, []))
        else some (.error (.status 500)) }
  cache := .inMemory
  disk := folderDisk
  references := [⟨"Widget", "lib", "1+..+.-+.0"⟩, ⟨"Widget", "lib", "1.+++.++-+.0"⟩]

/-- The setting of `menuSetting` with a folder that is reached by way of another one. -/
def detourSetting : BuildSetting :=
  { menuSetting with workshop := .of .jsx ⟨"/w/away/.."⟩ "r" "c" }

/-- The module of `menu` is there as the cache says, but it is not reached until `/w/away` is made. -/
def detourCall : Call where
  setting := detourSetting
  cache :=
    Cache.inMemory.recordSuccess (detourSetting.workshop.naming.key ⟨"ui", "menu", "1"⟩) []
  disk :=
    folderDisk.put [detourSetting.workshop.naming.moduleName ⟨"ui", "menu", "1"⟩, "com", "w"]
      (.file [])
  references := [⟨"ui", "menu", "1"⟩, ⟨"ui", "page", "1"⟩]

theorem Call.not_needs {reference other : Reference} (h : call.deps reference = []) :
    ¬Relation.TransGen call.Needs reference other := by
  intro hreach
  obtain ⟨middle, ⟨dep, hdep, -⟩, -⟩ := Relation.TransGen.head'_iff.1 hreach
  rw [h] at hdep
  cases hdep

set_option maxRecDepth 100000 in
theorem collidingCall_computed :
    (∀ root ∈ collidingCall.references, collidingCall.deps root = []) ∧
      (strides? collidingCall.setting [] collidingCall.opening [0, 0, 0, 0, 0, 1, 1]).any (fun last =>
        last.isFinished = true ∧ last.reports = [{ Report.zero with fetched := 1 }]) = true ∧
      (strides? collidingCall.setting [] collidingCall.opening [1, 1, 1, 1, 1, 0, 0]).any (fun last =>
        last.isFinished = true ∧ last.reports = [{ Report.zero with failed := 1 }]) = true := by
  decide +kernel

/-- What is counted depends on which of the two comes first. -/
theorem reports_collidingCall :
    ((collidingCall.after [0, 0, 0, 0, 0, 1, 1]).isFinished = true ∧
        (collidingCall.after [0, 0, 0, 0, 0, 1, 1]).reports =
          [{ Report.zero with fetched := 1 }]) ∧
      (collidingCall.after [1, 1, 1, 1, 1, 0, 0]).isFinished = true ∧
        (collidingCall.after [1, 1, 1, 1, 1, 0, 0]).reports =
          [{ Report.zero with failed := 1 }] := by
  obtain ⟨-, hstrides, hstrides'⟩ := collidingCall_computed
  have hready : IsReady collidingCall.setting [] collidingCall.disk := isReady_folderDisk.congr rfl
  obtain ⟨last, disk, hlast, hafter⟩ := collidingCall.exists_after hready hstrides
  obtain ⟨last', disk', hlast', hafter'⟩ := collidingCall.exists_after hready hstrides'
  rw [hafter, hafter']
  exact ⟨of_decide_eq_true hlast, of_decide_eq_true hlast'⟩

set_option maxRecDepth 100000 in
theorem detourCall_computed :
    detourCall.ClosedBy detourCall.references ∧
      (∀ first ∈ detourCall.references, ∀ second ∈ detourCall.references,
        (detourCall.naming.identity first).identifier =
          (detourCall.naming.identity second).identifier → first = second) ∧
      (∀ root ∈ detourCall.references, detourCall.deps root = []) ∧
      folderDisk.entry?
        [detourSetting.workshop.naming.moduleName ⟨"ui", "menu", "1"⟩, "com", "w"] = none ∧
      (detourCall.after [0, 0, 0, 0, 0, 0, 1, 1, 1, 1, 1]).isFinished = true ∧
      (detourCall.after [0, 0, 0, 0, 0, 0, 1, 1, 1, 1, 1]).reports =
        [{ Report.zero with fetched := 2 }] ∧
      (detourCall.after [1, 1, 1, 1, 1, 0, 0, 0]).isFinished = true ∧
      (detourCall.after [1, 1, 1, 1, 1, 0, 0, 0]).reports =
        [{ Report.zero with fetched := 1, cacheHits := 1 }] := by
  decide +kernel

/-- The order of turns shows if two components have one identifier, or if the folder is missing and
the way to it leads through a missing folder and back. -/
theorem schedules_show_if_not_orderly :
    (BuildsIn ⟨"/w"⟩ collidingCall.setting ∧
      collidingCall.disk.IsTidy ((⟨"/w"⟩ : Path) / "com") ∧
      (∀ root ∈ collidingCall.references, ∀ other ∈ collidingCall.references,
        ¬Relation.TransGen collidingCall.Needs root other) ∧
      ∃ build build',
        Relation.ReflTransGen (StepsTo collidingCall.setting) collidingCall.opening build ∧
        build.isFinished = true ∧
        Relation.ReflTransGen (StepsTo collidingCall.setting) collidingCall.opening build' ∧
        build'.isFinished = true ∧ build.reports ≠ build'.reports) ∧
    (BuildsIn ⟨"/w/away/.."⟩ detourCall.setting ∧ detourCall.disk.IsTree ∧
      (∀ first second, detourCall.Meets first → detourCall.Meets second →
        (detourCall.naming.identity first).identifier =
          (detourCall.naming.identity second).identifier → first = second) ∧
      (∀ root ∈ detourCall.references, ∀ other ∈ detourCall.references,
        ¬Relation.TransGen detourCall.Needs root other) ∧
      ∃ build build',
        Relation.ReflTransGen (StepsTo detourCall.setting) detourCall.opening build ∧
        build.isFinished = true ∧
        Relation.ReflTransGen (StepsTo detourCall.setting) detourCall.opening build' ∧
        build'.isFinished = true ∧ build.reports ≠ build'.reports) := by
  constructor
  · obtain ⟨hdeps, -⟩ := collidingCall_computed
    obtain ⟨⟨hover, hreports⟩, hover', hreports'⟩ := reports_collidingCall
    refine ⟨⟨.jsx, "r", "c", rfl⟩, ⟨isTree_folderDisk, .inl (by decide)⟩,
      fun root hroot other _ => Call.not_needs (hdeps root hroot), _, _,
      collidingCall.steps_after [0, 0, 0, 0, 0, 1, 1], hover,
      collidingCall.steps_after [1, 1, 1, 1, 1, 0, 0], hover', ?_⟩
    rw [hreports, hreports']
    decide
  · obtain ⟨hclosed, hdistinct, hdeps, hnew, hover, hreports, hover', hreports'⟩ :=
      detourCall_computed
    refine ⟨⟨.jsx, "r", "c", rfl⟩,
      isTree_folderDisk.put (by simp [folderDisk, Disk.entry_put]) hnew (.file []),
      fun first second hfirst hsecond =>
        hdistinct first (hclosed.mem hfirst) second (hclosed.mem hsecond),
      fun root hroot other _ => Call.not_needs (hdeps root hroot), _, _,
      detourCall.steps_after [0, 0, 0, 0, 0, 0, 1, 1, 1, 1, 1], hover,
      detourCall.steps_after [1, 1, 1, 1, 1, 0, 0, 0], hover', ?_⟩
    rw [hreports, hreports']
    decide

end ComponentTags.Build
