import ComponentTags.Proofs.Artifact.Preambles
import ComponentTags.Proofs.Build.Delivery
import ComponentTags.Proofs.Disk.Siblings

/-!
Imports. After a first build whose files could all be written nothing is imported that is not there:
every specifier is that of a package, of a shared module, or of a file beside the module.
-/

namespace ComponentTags

/-- The packages that modules import. -/
def packages : List String :=
  ["react", "veaury"]

/-- What an import specifier may stand for while a disk is as it is. -/
inductive Workshop.Resolves (workshop : Workshop) (disk : Disk) (specifier : String) : Prop where
  | package (hmem : specifier ∈ packages) : Workshop.Resolves workshop disk specifier
  | shared {file : OutputFile} (hfile : file ∈ workshop.support.files)
      (hspecifier : specifier = file.path.specifier) : Workshop.Resolves workshop disk specifier
  | component {name : String} {content : List UInt8} (hname : IsPlainName name)
      (hread : disk.read (workshop.naming.directory / name) = .ok content)
      (hspecifier : specifier = (workshop.naming.directory / name).specifier) :
      Workshop.Resolves workshop disk specifier

namespace Deed

variable {workshop : Workshop} {disk : Disk} {declaration : Import} {deed : Deed}

theorem resolves_sharedImports (workshop : Workshop) (disk : Disk) (deed : Deed) :
    ∀ declaration ∈ deed.sharedImports workshop,
      workshop.Resolves disk declaration.specifier := by
  have hreact : workshop.Resolves disk "react" := .package (by decide)
  have hveaury : workshop.Resolves disk "veaury" := .package (by decide)
  have hshared : ∀ file ∈ workshop.support.files, workshop.Resolves disk file.path.specifier :=
    fun file hfile => .shared hfile rfl
  simp only [Support.files, List.forall_mem_cons] at hshared
  obtain ⟨hstyle, hboundary, hrender, -⟩ := hshared
  cases deed with
  | entry reference payload closure =>
      simp only [sharedImports]
      cases workshop.dialect <;> simp only [List.forall_mem_cons]
      · exact ⟨hreact, hboundary, hrender, List.forall_mem_nil _⟩
      · exact ⟨hreact, hveaury, hboundary, hrender, List.forall_mem_nil _⟩
  | dependency reference payload needed => exact List.forall_mem_nil _
  | message reference =>
      simp only [sharedImports]
      cases workshop.dialect <;> simp only [List.forall_mem_cons]
      · exact ⟨hreact, hstyle, List.forall_mem_nil _⟩
      · exact List.forall_mem_nil _

/-- The companion that a module imports is written with it. -/
theorem exists_companion (h : declaration ∈ deed.ownImports workshop) :
    ∃ file ∈ deed.outputs workshop,
      file.1 = workshop.naming.directory / workshop.naming.companionName deed.reference ∧
      declaration.specifier = file.1.specifier := by
  have hcompiled : ∀ (reference : Reference) (payload : Payload),
      declaration ∈ companionImports (workshop.naming.companion
        (workshop.naming.identity reference)) payload →
      ∃ file ∈ (workshop.companionFiles (workshop.naming.identity reference) payload).map
          fun file => (file.path, file.content),
        file.1 = workshop.naming.directory / workshop.naming.companionName reference ∧
        declaration.specifier = file.1.specifier := by
    intro reference payload hmem
    unfold companionImports at hmem
    unfold Workshop.companionFiles
    cases hkind : payload.kind <;> rw [hkind] at hmem
    · cases hmem
    · obtain rfl := List.mem_singleton.1 hmem
      exact ⟨(workshop.naming.companion (workshop.naming.identity reference), payload.runtime),
        List.mem_singleton_self _, rfl, rfl⟩
  cases deed with
  | entry reference payload closure =>
      obtain ⟨file, hfile, hrest⟩ := hcompiled reference payload h
      exact ⟨file, List.mem_cons_of_mem _ hfile, hrest⟩
  | dependency reference payload needed =>
      obtain ⟨file, hfile, hrest⟩ := hcompiled reference payload h
      exact ⟨file, List.mem_cons_of_mem _ hfile, hrest⟩
  | message reference => cases h

theorem eq_companion {file : OutputFile} (h : file ∈ deed.companions workshop) :
    ∃ payload, deed.payload? = some payload ∧
      file = ⟨workshop.naming.directory / workshop.naming.companionName deed.reference,
        payload.runtime⟩ := by
  have hserved : ∀ (reference : Reference) (payload : Payload),
      file ∈ workshop.companionFiles (workshop.naming.identity reference) payload →
        file = ⟨workshop.naming.directory / workshop.naming.companionName reference,
          payload.runtime⟩ := by
    intro reference payload hmem
    unfold Workshop.companionFiles at hmem
    cases hkind : payload.kind <;> rw [hkind] at hmem
    · cases hmem
    · exact List.mem_singleton.1 hmem
  cases deed with
  | entry reference payload closure => exact ⟨payload, rfl, hserved reference payload h⟩
  | dependency reference payload needed => exact ⟨payload, rfl, hserved reference payload h⟩
  | message reference => cases h

theorem mem_imports (h : declaration ∈ deed.imports workshop) :
    declaration ∈ deed.sharedImports workshop ∨ declaration ∈ deed.ownImports workshop ∨
      ∃ registration ∈ deed.registrations, declaration = registration.declaration := by
  have hregistered : declaration ∈ deed.registrations.map Registration.declaration →
      ∃ registration ∈ deed.registrations, declaration = registration.declaration := by
    intro hmem
    obtain ⟨registration, hregistration, rfl⟩ := List.mem_map.1 hmem
    exact ⟨registration, hregistration, rfl⟩
  cases deed with
  | dependency reference payload needed =>
      rcases List.mem_append.1 h with hmem | hmem
      · exact .inr (.inr (hregistered hmem))
      · exact .inr (.inl hmem)
  | _ =>
      rcases List.mem_append.1 h with hmem | hmem
      · exact (List.mem_append.1 hmem).imp_right .inl
      · exact .inr (.inr (hregistered hmem))

/-- The files of a deed have names that files keep. -/
theorem endsLasting_outputs (hproper : workshop.naming.IsProper) {file : Path × String}
    (hfile : file ∈ deed.outputs workshop) : Disk.EndsLasting file.1 := by
  rw [outputs_eq] at hfile
  obtain ⟨⟨name, text⟩, hname, rfl⟩ := List.mem_map.1 hfile
  have hplain := hproper.isPlainName_of_mem_ownNames (fst_mem_ownNames hname)
  obtain ⟨parts, hparts⟩ := workshop.naming.directory.exists_parts_join hplain
  exact ⟨parts, name, hparts, hplain,
    hproper.ne_temporaryName_of_mem_ownNames (fst_mem_ownNames hname) _⟩

end Deed

namespace Build

/-- The component with that key was met, or one is known to need it. -/
def Expects (setting : BuildSetting) (build : Build) (owner : ComponentKey → Option Nat)
    (key : ComponentKey) : Prop :=
  (owner key).isSome ∨ ∃ parent deps, build.knowledge.deps[parent]? = some deps ∧
    ∃ dep ∈ deps, childKey setting parent dep = key

/-- What the turns of a build made of the files that were there at the start. -/
structure Published (setting : BuildSetting) (start : Disk) (turns : List Turn) (build : Build)
    (owner : ComponentKey → Option Nat) : Prop where
  workingDirectory : build.disk.workingDirectory = start.workingDirectory
  made : ∀ spot content, build.disk.entry? spot = some (.file content) →
    start.entry? spot = some (.file content) ∨ ∃ turn ∈ turns, ∃ deed,
      turn.deed? setting = some deed ∧ ∃ file ∈ deed.outputs setting.workshop,
        spot = build.disk.spotOf file.1 ∧ content = Utf8.encode file.2.toList
  readable : (∀ count ∈ build.writeErrors, count = 0) → ∀ turn ∈ turns, ∀ deed,
    turn.deed? setting = some deed → ∀ file ∈ deed.outputs setting.workshop,
      ∃ content, build.disk.read file.1 = .ok content
  expected : ∀ turn ∈ turns, ∀ deed, turn.deed? setting = some deed →
    ∀ registration ∈ deed.registrations, ∃ reference,
      registration = setting.workshop.registration reference ∧
        Expects setting build owner (setting.workshop.naming.key reference)

section Steps

variable {setting : BuildSetting} {build next : Build} {owner owner' : ComponentKey → Option Nat}
  {index : Nat} {visit : Visit} {children : List Visit} {stage : Stage} {start : Disk}
  {turns : List Turn} {key : ComponentKey}

theorem Advances.deed?_eq (hstep : Advances setting build index visit children stage next) :
    Turn.deed? setting ⟨build, index⟩ = visit.deed? setting := by
  rw [Turn.deed?, Turn.visit?, hstep.found]
  rfl

/-- What a step leaves of the disk. -/
theorem Advances.leaves (hstep : Advances setting build index visit children stage next) :
    Disk.Leaves (Disk.contents ((visit.deed? setting).elim [] (Deed.outputs setting.workshop)))
      build.disk next.disk := by
  rw [hstep.disk]
  cases visit.deed? setting with
  | none => exact .refl _ _
  | some deed => exact Disk.leaves_writeAll _ _

/-- As long as no run counted a write error, every module could be written. -/
theorem Advances.isOk_of_errors (hstep : Advances setting build index visit children stage next)
    (hcounted : AllCounted build) (hzero : ∀ count ∈ next.writeErrors, count = 0) :
    (∀ count ∈ build.writeErrors, count = 0) ∧
      (build.disk.perform setting.workshop (visit.deed? setting)).2.isOk = true := by
  have herrors := hstep.errors
  split at herrors
  · next hok => exact ⟨herrors ▸ hzero, hok⟩
  · -- The run of the visit counts one more.
    have hrun := hcounted index visit hstep.found
    have hmore : build.writeErrors[visit.run] + 1 ∈ next.writeErrors := by
      apply List.mem_of_getElem? (i := visit.run)
      rw [herrors]
      simp [List.getElem?_eq_getElem hrun]
    exact absurd (hzero _ hmore) (Nat.succ_ne_zero _)

theorem Expects.advance (h : Expects setting build owner key) (hguarded : Guarded setting build owner)
    (hstep : Advances setting build index visit children stage next)
    (howner : Extends owner owner' visit.component.key index) : Expects setting next owner' key := by
  rcases h with hmet | ⟨parent, deps, hdeps, hneeds⟩
  · obtain ⟨i, hown⟩ := Option.isSome_iff_exists.1 hmet
    exact .inl (by rw [howner.kept _ _ hown]; rfl)
  · exact .inr ⟨parent, deps, hguarded.deps_kept hstep hdeps, hneeds⟩

/-- Once a build is over all that it expects was met. -/
theorem Expects.met (h : Expects setting build owner key) (hguarded : Guarded setting build owner)
    (hfinished : build.isFinished = true) : (owner key).isSome := by
  rcases h with hmet | ⟨parent, deps, hdeps, dep, hdep, rfl⟩
  · exact hmet
  · obtain ⟨i, other, -, rfl, hown⟩ := hguarded.exists_owner hdeps
    obtain ⟨-, -, -, -, -, -, -, hopened⟩ :=
      hguarded.opened_of_isFinished hfinished (by rw [hown]; rfl)
    exact hguarded.complete _ deps hopened hdeps dep hdep

theorem stage_of_dependency {reference : Reference} {payload : Payload}
    {needed : List Registration}
    (hdeed : visit.deed? setting = some (.dependency reference payload needed)) :
    visit.stage = .writing payload ∧ reference = visit.component.reference ∧
      needed = directRegistrations setting visit.component.reference payload.deps := by
  unfold Visit.deed? at hdeed
  split at hdeed
  · cases hdeed
  · next hstage =>
      cases hdeed
      exact ⟨hstage, rfl, rfl⟩
  · split at hdeed <;> cases hdeed
  · cases hdeed

/-- A module registers components that are there to be met. -/
theorem Sound.expects {cache : Cache} (h : Sound setting cache turns build owner)
    (hfound : build.visits[index]? = some visit) {deed : Deed}
    (hdeed : visit.deed? setting = some deed) :
    ∀ registration ∈ deed.registrations, ∃ reference,
      registration = setting.workshop.registration reference ∧
        Expects setting build owner (setting.workshop.naming.key reference) := by
  intro registration hregistration
  cases deed with
  | entry reference payload closure =>
      obtain ⟨order, rfl, -, -, hopened⟩ := h.gather.exists_order h.faithful h.guarded hfound hdeed
      obtain ⟨needed, hneeded, rfl⟩ := List.mem_map.1 hregistration
      obtain ⟨-, i, -, hown, -⟩ := h.guarded.stage_of_opened
        (hopened _ (.inr (List.mem_map_of_mem hneeded)))
      exact ⟨needed, rfl, .inl (by rw [hown]; rfl)⟩
  | dependency reference payload needed =>
      obtain ⟨hstage, rfl, rfl⟩ := stage_of_dependency hdeed
      obtain ⟨component, hcomponent, rfl⟩ := List.mem_map.1 hregistration
      obtain ⟨dep, hdep, rfl⟩ := List.mem_map.1 (mem_of_mem_distinctBy hcomponent)
      have hknows := (h.guarded.guards hfound (h.guarded.owner_eq hfound hstage trivial)).knows
      rw [hstage] at hknows
      exact ⟨_, rfl, .inr ⟨_, _, hknows, dep, hdep, (key_named_child setting _ dep).symm⟩⟩
  | message reference => cases hregistration

theorem Published.advance {cache : Cache} (h : Published setting start turns build owner)
    (hproper : setting.workshop.naming.IsProper) (hsound : Sound setting cache turns build owner)
    (hstep : Advances setting build index visit children stage next)
    (howner : Extends owner owner' visit.component.key index) :
    Published setting start (⟨build, index⟩ :: turns) next owner' where
  workingDirectory := hstep.leaves.workingDirectory.trans h.workingDirectory
  made spot content hfile := by
    rcases hstep.leaves.made spot content hfile with hold | ⟨file, hmem, hspot, hcontent⟩
    · refine (h.made spot content hold).imp_right ?_
      rintro ⟨turn, hturn, deed, hdeed, file, hfile, hspot, hcontent⟩
      rw [← Disk.spotOf_congr hstep.leaves.workingDirectory] at hspot
      exact ⟨turn, List.mem_cons_of_mem _ hturn, deed, hdeed, file, hfile, hspot, hcontent⟩
    · obtain ⟨file, hfile, rfl⟩ := List.mem_map.1 hmem
      rw [← Disk.spotOf_congr hstep.leaves.workingDirectory] at hspot
      cases hdeed : visit.deed? setting with
      | none =>
          rw [hdeed] at hfile
          cases hfile
      | some deed =>
          rw [hdeed] at hfile
          exact .inr ⟨_, List.mem_cons_self, deed, hstep.deed?_eq.trans hdeed, file, hfile, hspot,
            hcontent⟩
  readable hzero turn hturn deed hdeed file hfile := by
    obtain ⟨hbefore, hok⟩ := hstep.isOk_of_errors hsound.counted hzero
    rcases List.mem_cons.1 hturn with rfl | hearlier
    · rw [hstep.deed?_eq] at hdeed
      rw [hdeed] at hok
      rw [hstep.disk, hdeed]
      exact Disk.exists_read_of_writeAll (fun _ => Deed.endsLasting_outputs hproper) hok hfile
    · obtain ⟨content, hread⟩ := h.readable hbefore turn hearlier deed hdeed file hfile
      exact hstep.leaves.read (Deed.endsLasting_outputs hproper hfile) hread
  expected turn hturn deed hdeed registration hregistration := by
    have hexpected : ∃ reference, registration = setting.workshop.registration reference ∧
        Expects setting build owner (setting.workshop.naming.key reference) := by
      rcases List.mem_cons.1 hturn with rfl | hearlier
      · exact hsound.expects hstep.found (hstep.deed?_eq.symm.trans hdeed) registration
          hregistration
      · exact h.expected turn hearlier deed hdeed registration hregistration
    obtain ⟨reference, heq, hexpects⟩ := hexpected
    exact ⟨reference, heq, hexpects.advance hsound.guarded hstep howner⟩

theorem Published.begin (h : Published setting start turns build owner)
    (components : List NamedReference) :
    Published setting start turns (build.begin components) owner where
  workingDirectory := h.workingDirectory
  made := h.made
  readable hzero := by
    refine h.readable fun count hcount => hzero count ?_
    rw [writeErrors, Build.begin, List.map_append]
    exact List.mem_append_left _ hcount
  expected := h.expected

end Steps

/--
A file of the component directory that came up in a build: a module whose preamble imports nothing that
is not there, or the companion of one, which is the component's own code as it was served.
-/
inductive ImportsResolve (setting : BuildSetting) (turns : List Turn) (disk : Disk) (spot : Spot)
    (content : List UInt8) : Prop where
  | module {turn : Turn} {deed : Deed} {rest : String} (hturn : turn ∈ turns)
      (hdeed : turn.deed? setting = some deed)
      (hspot : spot = disk.spotOf (deed.path setting.workshop))
      (hcontent : content =
        Utf8.encode (textLines (deed.preamble setting.workshop) ++ rest).toList)
      (hlines : ∀ line ∈ deed.preamble setting.workshop, isImportLine line = true →
        ∃ declaration : Import, line = declaration.text ∧
          setting.workshop.Resolves disk declaration.specifier) :
      ImportsResolve setting turns disk spot content
  | companion {turn : Turn} {deed : Deed} {payload : Payload} (hturn : turn ∈ turns)
      (hdeed : turn.deed? setting = some deed) (hpayload : deed.payload? = some payload)
      (hspot : spot = disk.spotOf
        (setting.workshop.naming.directory / setting.workshop.naming.companionName deed.reference))
      (hcontent : content = Utf8.encode payload.runtime.toList) :
      ImportsResolve setting turns disk spot content

section Runs

variable {setting : BuildSetting} {build : Build} {turns : List Turn} {cache : Cache} {disk : Disk}

theorem Run.published (hproper : setting.workshop.naming.IsProper)
    (hrun : Run setting (Build.start cache disk) turns build) :
    ∃ owner, Tracked setting cache turns build owner ∧
      Published setting disk turns build owner := by
  refine hrun.invariant (motive := Published setting disk) hproper ?_ ?_ ?_
  · exact ⟨rfl, fun _ _ hfile => .inl hfile, (fun _ _ hturn => nomatch hturn),
      (fun _ hturn => nomatch hturn)⟩
  · intro turns build owner references htracked hpublished
    exact hpublished.begin _
  · intro turns build owner index visit children stage next owner' htracked hpassage hpublished
    exact hpublished.advance hproper htracked.sound hpassage.advances hpassage.owners

/-- In a first build that is over and counted no write error, each component that was met has its
module. -/
theorem Run.exists_module (hproper : setting.workshop.naming.IsProper)
    (hrun : Run setting (Build.start cache disk) turns build) (hempty : cache.entries = ∅)
    (hfinished : build.isFinished = true) (hzero : ∀ count ∈ build.writeErrors, count = 0)
    {owner : ComponentKey → Option Nat} (htracked : Tracked setting cache turns build owner)
    {reference : Reference} (hmet : (owner (setting.workshop.naming.key reference)).isSome) :
    ∃ content, build.disk.read (setting.workshop.naming.identity reference).path = .ok content := by
  obtain ⟨owner', htracked', hhandled⟩ := hrun.allHandled hproper
  obtain rfl := htracked.claimed.unique htracked'.claimed
  obtain ⟨i, visit, hvisit, hkey, hdone⟩ :=
    hhandled.of_isFinished htracked.sound.guarded hfinished hmet
  cases hdone with
  | provided hmodule =>
      rw [hkey] at hmodule
      cases hmodule with
      | found hturn hhit =>
          have hcached := hrun.cached_of_hits hproper hturn hhit
          rw [Cache.get?, hempty] at hcached
          cases hcached
      | written _ _ _ hread => exact ⟨_, hread⟩
  | missed hcount hpos =>
      exact absurd (hzero _ (List.mem_of_getElem? hcount)) (Nat.pos_iff_ne_zero.1 hpos)

/--
**A first build leaves no dangling imports.** When a build that started with an empty cache and no file
in the component directory is over, and all files could be written, every import of every module in
that directory is of a package, of a shared module, or of a file that is there.
-/
theorem imports_resolve {dialect : Dialect} {directory : Path} {renderer start : String}
    (hworkshop : setting.workshop = .of dialect directory renderer start)
    (hempty : cache.entries = ∅)
    (hclean : ∀ spot content, disk.spotOf (directory / "com") <:+ spot →
      disk.entry? spot ≠ some (.file content))
    (hrun : Run setting (Build.start cache disk) turns build)
    (hfinished : build.isFinished = true)
    (herrors : ∀ report ∈ build.reports, report.writeErrors = 0)
    {spot : Spot} {content : List UInt8} (hbelow : build.disk.spotOf (directory / "com") <:+ spot)
    (hfile : build.disk.entry? spot = some (.file content)) :
    ImportsResolve setting turns build.disk spot content := by
  have hproper : setting.workshop.naming.IsProper := by
    rw [hworkshop]
    exact Naming.isProper_of _ dialect start
  have hzero : ∀ count ∈ build.writeErrors, count = 0 := by
    intro count hcount
    obtain ⟨report, hreport, rfl⟩ := List.mem_map.1 hcount
    exact herrors report hreport
  obtain ⟨owner, htracked, hpublished⟩ := hrun.published hproper
  rw [Disk.spotOf_congr hpublished.workingDirectory] at hbelow
  obtain ⟨turn, hturn, deed, hdeed, file, houtput, hspot, rfl⟩ :=
    (hpublished.made spot content hfile).resolve_left (hclean spot content hbelow)
  have hreadable := hpublished.readable hzero turn hturn deed hdeed
  -- What the module imports: the shared modules, the companion that is written with it, and the
  -- components that it registers, each of which was met by now.
  have hresolves : ∀ declaration ∈ deed.imports setting.workshop,
      setting.workshop.Resolves build.disk declaration.specifier := by
    intro declaration hdeclaration
    rcases Deed.mem_imports hdeclaration with hshared | hown | ⟨registration, hregistered, rfl⟩
    · exact Deed.resolves_sharedImports _ _ _ _ hshared
    · obtain ⟨companion, hcompanion, hpath, hspecifier⟩ := Deed.exists_companion hown
      obtain ⟨content, hread⟩ := hreadable companion hcompanion
      rw [hpath] at hread hspecifier
      exact .component (hproper.isCompanionName _).isPlainName hread hspecifier
    · obtain ⟨reference, rfl, hexpects⟩ :=
        hpublished.expected turn hturn deed hdeed registration hregistered
      obtain ⟨content, hread⟩ := hrun.exists_module hproper hempty hfinished hzero htracked
        (hexpects.met htracked.sound.guarded hfinished)
      exact .component (hproper.isModuleName reference).isPlainName hread rfl
  rw [Deed.outputs, Deed.files_eq, List.map_cons] at houtput
  rcases List.mem_cons.1 houtput with rfl | hcompanion
  · obtain ⟨rest, hrest⟩ := deed.exists_text_eq setting.workshop
    refine .module hturn hdeed hspot (congrArg (fun text => Utf8.encode text.toList) hrest) ?_
    intro line hline himport
    have hmem := List.mem_filter.2 ⟨hline, himport⟩
    rw [deed.areAll_preamble setting.workshop] at hmem
    obtain ⟨declaration, hdeclaration, rfl⟩ := List.mem_map.1 hmem
    exact ⟨declaration, rfl, hresolves declaration hdeclaration⟩
  · obtain ⟨companion, hmem, rfl⟩ := List.mem_map.1 hcompanion
    obtain ⟨payload, hpayload, rfl⟩ := Deed.eq_companion hmem
    exact .companion hturn hdeed hpayload hspot rfl

set_option maxRecDepth 100000 in
theorem finishedBuild_strides :
    (strides? menuSetting [] menuOpening [0, 0, 0, 1, 1, 1, 1, 1, 0, 0, 0]).any (fun last =>
      last.isFinished = true ∧ ∀ report ∈ last.reports, report.writeErrors = 0) = true ∧
    (((strideVisits menuSetting menuOpening [0, 0, 0, 1, 1, 1, 1, 1, 0, 0, 0]).filterMap
      (writes? menuSetting (menuSetting.workshop.naming.moduleName ⟨"ui", "app", "1"⟩))).head?).isSome =
        true := by
  decide +kernel

/-- The build of `app` goes well, and its entry is there afterwards. -/
theorem finishedBuild_over :
    finishedBuild.isFinished = true ∧ (∀ report ∈ finishedBuild.reports, report.writeErrors = 0) ∧
      ∃ content, finishedBuild.disk.read
        (menuSetting.workshop.naming.identity ⟨"ui", "app", "1"⟩).path = .ok content := by
  obtain ⟨hstrides, hwrites⟩ := finishedBuild_strides
  obtain ⟨last, hlast, hchecked⟩ := (Option.any_eq_true _ _).1 hstrides
  obtain ⟨⟨workshop, deed⟩, hdeed⟩ := Option.isSome_iff_exists.1 hwrites
  obtain ⟨hfinished, herrors⟩ := of_decide_eq_true hchecked
  obtain ⟨disk, hsweep, -, hhistory, hwritten⟩ :=
    history_menuOpening.exists_last isReady_menuSetting hlast
  have hentry := hwritten (menuSetting.workshop.naming.moduleName ⟨"ui", "app", "1"⟩)
  rw [hdeed, Option.some_or] at hentry
  have hfinal : finishedBuild = last.withDisk disk := finishedBuild_eq.trans hsweep
  rw [hfinal]
  exact ⟨hfinished, herrors, _, hhistory.read_of_lastDeed? hentry⟩

theorem imports_resolve_of_menu :
    ∃ turns spot content, Run menuSetting (Build.start .inMemory .empty) turns finishedBuild ∧
      finishedBuild.isFinished = true ∧
      (∀ report ∈ finishedBuild.reports, report.writeErrors = 0) ∧
      finishedBuild.disk.spotOf ((⟨"/w"⟩ : Path) / "com") <:+ spot ∧
      finishedBuild.disk.entry? spot = some (.file content) ∧
      ImportsResolve menuSetting turns finishedBuild.disk spot content := by
  have hclean : ∀ spot content, Disk.empty.spotOf ((⟨"/w"⟩ : Path) / "com") <:+ spot →
      Disk.empty.entry? spot ≠ some (.file content) := by
    intro spot content _
    cases spot <;> simp [Disk.empty, Disk.entry?]
  have hstart : Run menuSetting (Build.start .inMemory .empty) [] (Build.start .inMemory .empty) :=
    .start
  obtain ⟨turns, hmenu⟩ := (hstart.begin [⟨"ui", "app", "1"⟩]).exists_sweep
    [0, 0, 0, 1, 1, 1, 1, 1, 0, 0]
  obtain ⟨more, hrun⟩ := hmenu.exists_sweep [0]
  obtain ⟨hfinished, herrors, content, hread⟩ := finishedBuild_over
  obtain ⟨spot, hspot, hentry⟩ := Disk.read_eq_ok_iff.1 hread
  have hbelow : finishedBuild.disk.spotOf ((⟨"/w"⟩ : Path) / "com") <:+ spot := by
    have hname := (isReady_menuSetting.isProper.isModuleName ⟨"ui", "app", "1"⟩).isPlainName
    have hplace := finishedBuild.disk.spotOf_join ((⟨"/w"⟩ : Path) / "com") hname
    obtain rfl := (Disk.locate_eq_spotOf hspot).trans hplace
    exact List.suffix_cons _ _
  exact ⟨more, spot, content, hrun, hfinished, herrors, hbelow, hentry,
    imports_resolve rfl rfl hclean hrun hfinished herrors hbelow hentry⟩

end Runs

end Build

end ComponentTags
