import ComponentTags.Proofs.Artifact.IndependentDeeds
import ComponentTags.Proofs.Build.Moves

/-!
Accounts. What a step adds to the report of its run, and what it makes of the cache, follows from the
visit that takes it and from what the disk takes.
-/

namespace ComponentTags

namespace Report

variable (first second third : Report)

theorem add_assoc : (first.add second).add third = first.add (second.add third) := by
  simp [add, Nat.add_assoc]

theorem add_comm : first.add second = second.add first := by
  simp [add, Nat.add_comm]

end Report

namespace Build

/-- How many of the components that a visit goes on to are needed by what needs them already. -/
def cyclesAmong (setting : BuildSetting) (visit : Visit) (deps : List Dependency) : Nat :=
  ((deps.map fun dep => named setting (visit.component.reference.child dep)).filter fun child =>
    (visit.ancestors ++ [visit.component.key]).contains child.key).length

/-- Whether all files that a visit writes in its next step can be written. -/
def manages (setting : BuildSetting) (build : Build) (visit : Visit) : Bool :=
  (Deed.change setting.workshop (visit.deed? setting) build.disk).2

/-- What writing a module counts as. -/
def written (ok : Bool) : Report :=
  if ok then { Report.zero with fetched := 1 } else { Report.zero with writeErrors := 1 }

/-- What the next step of a visit adds to the report of its run. -/
def dues (setting : BuildSetting) (build : Build) (visit : Visit) : Report :=
  match visit.stage with
  | .looking deps =>
      if build.disk.holds visit.component.identity.path then
        { Report.zero with cacheHits := 1, cycles := cyclesAmong setting visit deps }
      else .zero
  | .queued =>
      if setting.registry.find? visit.component.reference.tag = none then
        { Report.zero with failed := 1 }
      else .zero
  | .requesting =>
      match response setting visit with
      | .error _ => { Report.zero with failed := 1 }
      | .ok (payload, _) =>
          if visit.isChild then .zero
          else { Report.zero with cycles := cyclesAmong setting visit payload.deps }
  | .failing =>
      if manages setting build visit then .zero else { Report.zero with writeErrors := 1 }
  | .writing payload =>
      (written (manages setting build visit)).add
        { Report.zero with cycles := cyclesAmong setting visit payload.deps }
  | .gathering _ gathering =>
      if gathering.pending = [] then written (manages setting build visit) else .zero
  | _ => .zero

/-- What the next step of a visit makes of the cache. -/
def cacheAfter (setting : BuildSetting) (build : Build) (visit : Visit) : Cache :=
  let recorded (payload : Payload) : Cache :=
    if manages setting build visit then
      build.cache.recordSuccess visit.component.key payload.deps
    else build.cache
  match visit.stage with
  | .arriving =>
      if build.knowledge.nodes.contains visit.component.key then build.cache
      else build.cache.ensure visit.component.key
  | .writing payload => recorded payload
  | .gathering payload gathering => if gathering.pending = [] then recorded payload else build.cache
  | _ => build.cache

section Steps

variable {setting : BuildSetting} {build next : Build} {index : Nat} {visit : Visit}

theorem modify_add_zero (reports : List Report) (run : Nat) :
    reports.modify run (·.add .zero) = reports := by
  have hid : (fun report : Report => report.add .zero) = id := rfl
  rw [hid, List.modify_id]

theorem modify_add_add (reports : List Report) (run : Nat) (first second : Report) :
    (reports.modify run (·.add first)).modify run (·.add second) =
      reports.modify run (·.add (first.add second)) := by
  rw [List.modify_modify_eq]
  congr 1
  funext report
  exact report.add_assoc first second

theorem reports_visitDeps (build : Build) (setting : BuildSetting) (index : Nat) (visit : Visit)
    (deps : List Dependency) (entry : Option Payload) :
    (build.visitDeps setting index visit deps entry).reports =
        build.reports.modify visit.run
          (·.add { Report.zero with cycles := cyclesAmong setting visit deps }) ∧
      (build.visitDeps setting index visit deps entry).cache = build.cache := by
  have hfold : ∀ (cyclic : List NamedReference) (build : Build),
      (cyclic.foldl (fun build child =>
          (build.warn (.dependencyCycle visit.component.reference child.reference)).count visit.run
            fun report => { report with cycles := report.cycles + 1 }) build).reports =
        build.reports.modify visit.run (·.add { Report.zero with cycles := cyclic.length }) ∧
      (cyclic.foldl (fun build child =>
          (build.warn (.dependencyCycle visit.component.reference child.reference)).count visit.run
            fun report => { report with cycles := report.cycles + 1 }) build).cache =
        build.cache := by
    intro cyclic
    induction cyclic with
    | nil => exact fun build => ⟨(modify_add_zero build.reports visit.run).symm, rfl⟩
    | cons child cyclic ih =>
        intro build
        rw [List.foldl_cons]
        obtain ⟨hreports, hcache⟩ := ih
          ((build.warn (.dependencyCycle visit.component.reference child.reference)).count visit.run
            fun report => { report with cycles := report.cycles + 1 })
        refine ⟨hreports.trans ?_, hcache⟩
        refine (modify_add_add build.reports visit.run { Report.zero with cycles := 1 } _).trans ?_
        simp [Report.add, Report.zero, Nat.add_comm]
  unfold visitDeps
  dsimp only
  rw [List.partition_eq_filter_filter]
  exact hfold _ build

theorem settle_accounts (build : Build) (workshop : Workshop) (visit : Visit) (payload : Payload)
    (deed : Deed) :
    (build.settle visit payload (deed.files workshop)).reports =
        build.reports.modify visit.run
          (·.add (written (Deed.change workshop (some deed) build.disk).2)) ∧
      (build.settle visit payload (deed.files workshop)).cache =
        if (Deed.change workshop (some deed) build.disk).2 then
          build.cache.recordSuccess visit.component.key payload.deps
        else build.cache := by
  rw [Deed.snd_change]
  unfold settle writeModules
  cases build.disk.writeAll ((deed.files workshop).map fun file => (file.path, file.content)) with
  | mk disk outcome => cases outcome <;> exact ⟨rfl, rfl⟩

/-- A step accounts for what it counts and what it records. -/
structure Accounts (setting : BuildSetting) (build : Build) (visit : Visit) (next : Build) : Prop where
  reports : next.reports = build.reports.modify visit.run (·.add (dues setting build visit))
  cache : next.cache = cacheAfter setting build visit

theorem Accounts.of_quiet (hreports : next.reports = build.reports)
    (hdues : dues setting build visit = .zero) (hcache : next.cache = cacheAfter setting build visit) :
    Accounts setting build visit next :=
  ⟨by rw [hreports, hdues, modify_add_zero], hcache⟩

theorem accounts_arrive (hstage : visit.stage = .arriving) :
    Accounts setting build visit (build.arrive index visit) := by
  refine .of_quiet ?_ (by simp only [dues, hstage]) ?_
  · unfold arrive
    dsimp only
    split
    · rfl
    · split <;> rfl
  · unfold arrive cacheAfter
    simp only [hstage]
    split
    · rfl
    · split <;> rfl

theorem accounts_look {deps : List Dependency} (hstage : visit.stage = .looking deps) :
    Accounts setting build visit (build.look setting index visit deps) := by
  unfold look
  dsimp only
  split
  · next hheld =>
      obtain ⟨hreports, hcache⟩ := reports_visitDeps
        (((build.count visit.run fun report => { report with cacheHits := report.cacheHits + 1 }).learn
          visit.component.key deps).openNode visit.component.key) setting index visit deps none
      refine ⟨hreports.trans ?_, hcache.trans (by simp only [cacheAfter, hstage]; rfl)⟩
      simp only [dues, hstage, if_pos hheld]
      refine (modify_add_add build.reports visit.run { Report.zero with cacheHits := 1 }
        { Report.zero with cycles := cyclesAmong setting visit deps }).trans ?_
      simp [Report.add, Report.zero]
  · next hheld =>
      exact .of_quiet rfl (by simp only [dues, hstage, if_neg hheld])
        (by simp only [cacheAfter, hstage]; rfl)

theorem accounts_send? (hstage : visit.stage = .queued)
    (hnext : build.send? setting index visit = some next) : Accounts setting build visit next := by
  unfold send? at hnext
  dsimp only at hnext
  split at hnext
  · next hrule =>
      obtain rfl := Option.some.inj hnext
      exact ⟨by simp only [dues, hstage, if_pos hrule]; rfl, by simp only [cacheAfter, hstage]; rfl⟩
  · next rule hrule =>
      split at hnext
      · obtain rfl := Option.some.inj hnext
        exact .of_quiet rfl (by simp [dues, hstage, hrule]) (by simp only [cacheAfter, hstage]; rfl)
      · cases hnext

theorem accounts_receive (hstage : visit.stage = .requesting) :
    Accounts setting build visit (build.receive setting index visit) := by
  unfold receive
  split
  · next failure hresponse =>
      exact ⟨by simp only [dues, hstage, hresponse]; rfl, by simp only [cacheAfter, hstage]; rfl⟩
  · next payload warnings hresponse =>
      dsimp only
      split
      · next hchild =>
          exact .of_quiet rfl (by simp only [dues, hstage, hresponse, if_pos hchild])
            (by simp only [cacheAfter, hstage]; rfl)
      · next hchild =>
          obtain ⟨hreports, hcache⟩ := reports_visitDeps
            (({ build with warnings := build.warnings ++ warnings }.learn visit.component.key
              payload.deps).openNode visit.component.key) setting index visit payload.deps
            (some payload)
          refine ⟨hreports.trans ?_, hcache.trans (by simp only [cacheAfter, hstage]; rfl)⟩
          simp only [dues, hstage, hresponse, if_neg hchild]
          rfl

theorem accounts_writeError (hstage : visit.stage = .failing) :
    Accounts setting build visit (build.writeError setting index visit) := by
  have hmanages : manages setting build visit = (build.disk.writeAll
      ([setting.workshop.errorFile visit.component.reference].map fun file =>
        (file.path, file.content))).2.isOk := by
    simp only [manages, Visit.deed?, hstage, Deed.snd_change, Deed.files]
  unfold writeError writeModules
  cases hwritten : build.disk.writeAll
      ([setting.workshop.errorFile visit.component.reference].map fun file =>
        (file.path, file.content)) with
  | mk disk outcome =>
      rw [hwritten] at hmanages
      cases outcome with
      | ok count =>
          exact .of_quiet rfl (by simp only [dues, hstage]; exact if_pos hmanages)
            (by simp only [cacheAfter, hstage]; rfl)
      | error failure =>
          have hfails : ¬manages setting build visit = true := by
            rw [hmanages]
            exact Bool.false_ne_true
          refine ⟨?_, by simp only [cacheAfter, hstage]; rfl⟩
          simp only [dues, hstage, if_neg hfails]
          rfl

theorem accounts_writeDependency {payload : Payload} (hstage : visit.stage = .writing payload) :
    Accounts setting build visit (build.writeDependency setting index visit payload) := by
  obtain ⟨hreports, hcache⟩ := build.settle_accounts setting.workshop visit payload
    (.dependency visit.component.reference payload
      (directRegistrations setting visit.component.reference payload.deps))
  have hmanages : manages setting build visit = (Deed.change setting.workshop
      (some (.dependency visit.component.reference payload
        (directRegistrations setting visit.component.reference payload.deps))) build.disk).2 := by
    simp only [manages, Visit.deed?, hstage]
  rw [← hmanages, Deed.files] at hreports hcache
  unfold writeDependency
  dsimp only
  generalize build.settle visit payload (setting.workshop.dependencyFiles visit.component.reference
    payload (directRegistrations setting visit.component.reference payload.deps)) = settled
    at hreports hcache
  obtain ⟨hreports', hcache'⟩ := reports_visitDeps (settled.openNode visit.component.key) setting
    index visit payload.deps none
  refine ⟨hreports'.trans ?_, hcache'.trans ?_⟩
  · have hopened : (settled.openNode visit.component.key).reports = settled.reports := rfl
    rw [hopened, hreports, modify_add_add]
    simp only [dues, hstage]
  · refine hcache.trans ?_
    simp only [cacheAfter, hstage]

theorem accounts_gather? {payload : Payload} {gathering : Gathering}
    (hstage : visit.stage = .gathering payload gathering)
    (hnext : build.gather? setting index visit payload gathering = some next) :
    Accounts setting build visit next := by
  unfold gather? at hnext
  split at hnext
  · next hpending =>
      obtain rfl := Option.some.inj hnext
      obtain ⟨hreports, hcache⟩ := build.settle_accounts setting.workshop visit payload
        (.entry visit.component.reference payload gathering.found)
      have hmanages : manages setting build visit = (Deed.change setting.workshop
          (some (.entry visit.component.reference payload gathering.found)) build.disk).2 := by
        simp only [manages, Visit.deed?, hstage, hpending]
      rw [← hmanages, Deed.files] at hreports hcache
      generalize build.settle visit payload (setting.workshop.entryFiles visit.component.reference
        payload gathering.found) = settled at hreports hcache
      refine ⟨hreports.trans ?_, hcache.trans ?_⟩
      · simp only [dues, hstage, if_pos hpending]
      · simp only [cacheAfter, hstage, if_pos hpending]
  · next reference pending hpending =>
      have hmore : gathering.pending ≠ [] := by simp [hpending]
      have hquiet : ∀ stage, Accounts setting build visit (build.atStage index stage) :=
        fun stage => .of_quiet rfl (by simp only [dues, hstage, if_neg hmore])
          (by simp only [cacheAfter, hstage, if_neg hmore]; rfl)
      dsimp only at hnext
      split at hnext
      · obtain rfl := Option.some.inj hnext
        exact hquiet _
      · split at hnext
        · cases hnext
        · obtain rfl := Option.some.inj hnext
          exact hquiet _

/-- **Every step accounts for what it counts and what it records.** -/
theorem accounts_step (hvisit : build.visits[index]? = some visit)
    (hnext : build.step? setting index = some next) : Accounts setting build visit next := by
  unfold step? at hnext
  rw [hvisit] at hnext
  dsimp only at hnext
  split at hnext
  · next hstage =>
      obtain rfl := Option.some.inj hnext
      exact accounts_arrive hstage
  · next hstage =>
      split at hnext
      · cases hnext
      · obtain rfl := Option.some.inj hnext
        exact .of_quiet rfl (by simp only [dues, hstage]) (by simp only [cacheAfter, hstage]; rfl)
  · next deps hstage =>
      obtain rfl := Option.some.inj hnext
      exact accounts_look hstage
  · next hstage => exact accounts_send? hstage hnext
  · next hstage =>
      obtain rfl := Option.some.inj hnext
      exact accounts_receive hstage
  · next hstage =>
      obtain rfl := Option.some.inj hnext
      exact accounts_writeError hstage
  · next payload hstage =>
      obtain rfl := Option.some.inj hnext
      exact accounts_writeDependency hstage
  · next children entry hstage =>
      unfold join? at hnext
      dsimp only at hnext
      split at hnext
      · obtain rfl := Option.some.inj hnext
        exact .of_quiet rfl (by simp only [dues, hstage]) (by simp only [cacheAfter, hstage]; rfl)
      · cases hnext
  · next payload gathering hstage => exact accounts_gather? hstage hnext
  · cases hnext

/-- A component that is met now is asked for unless the cache knows of a success. -/
theorem get?_ne_of_queued (hvisit : build.visits[index]? = some visit)
    (hstage : visit.stage = .arriving) (hnew : visit.component.key ∉ build.knowledge.nodes)
    (hnext : build.step? setting index = some next)
    (hqueued : next.visits[index]? = some { visit with stage := .queued }) (deps : List Dependency) :
    build.cache.get? visit.component.key ≠ some { success := true, deps } := by
  intro hknown
  have hensured : (build.cache.ensure visit.component.key).get? visit.component.key =
      some { success := true, deps } := by
    unfold Cache.ensure Cache.get? at *
    have hmem : visit.component.key ∈ build.cache.entries :=
      Std.ExtTreeMap.mem_iff_isSome_getElem?.2 (by simp [hknown])
    rw [Std.ExtTreeMap.getElem?_insertIfNew, if_neg (by simp [hmem]), hknown]
  unfold step? at hnext
  rw [hvisit] at hnext
  dsimp only at hnext
  rw [hstage] at hnext
  dsimp only at hnext
  unfold arrive at hnext
  dsimp only at hnext
  rw [if_neg (by simpa using hnew)] at hnext
  have hclaimed : ({ build.close visit.component.key with
      cache := (build.close visit.component.key).cache.ensure visit.component.key } :
        Build).cache.get? visit.component.key = some { success := true, deps } := hensured
  rw [hclaimed] at hnext
  obtain rfl := Option.some.inj hnext
  simp [atStage, close, hvisit] at hqueued

end Steps

end Build

end ComponentTags
