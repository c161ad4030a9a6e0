import ComponentTags.Build.Schedule
import ComponentTags.Proofs.Artifact.Deeds

/-!
Moves. Each step of a build is one of a few moves of one visit: it changes what is known of that
visit's component alone, writes the modules of that component or nothing, and may add visits of what
the component needs.
-/

namespace ComponentTags

/-- The module that the next step of a visit writes. -/
def Visit.deed? (setting : BuildSetting) (visit : Visit) : Option Deed :=
  match visit.stage with
  | .failing => some (.message visit.component.reference)
  | .writing payload =>
      some (.dependency visit.component.reference payload
        (Build.directRegistrations setting visit.component.reference payload.deps))
  | .gathering payload gathering =>
      match gathering.pending with
      | [] => some (.entry visit.component.reference payload gathering.found)
      | _ :: _ => none
  | _ => none

namespace Build

/-- How many files each run of the build could not write. -/
def writeErrors (build : Build) : List Nat :=
  build.reports.map (·.writeErrors)

/-- The visits of what a component needs, less the cycles. -/
def freshVisits (setting : BuildSetting) (visit : Visit) (deps : List Dependency) : List Visit :=
  ((deps.map fun dep => named setting (visit.component.reference.child dep)).filter fun child =>
      !(visit.ancestors ++ [visit.component.key]).contains child.key).map fun component =>
    { component, ancestors := visit.ancestors ++ [visit.component.key], isChild := true
      run := visit.run, stage := .arriving }

/-- The stage of a visit whose children are the visits that come up last. -/
def joiningStage (build : Build) (setting : BuildSetting) (visit : Visit) (deps : List Dependency)
    (entry : Option Payload) : Stage :=
  .joining (List.range' build.visits.length (freshVisits setting visit deps).length) entry

/--
What a step makes of a build: what is known and the cache afterwards, the visits that come up, and the
next stage of the visit that took the step.
-/
inductive Move (setting : BuildSetting) (build : Build) (visit : Visit) :
    Knowledge → Cache → List Visit → Stage → Prop where
  | wait (hstage : visit.stage = .arriving) (hkey : visit.component.key ∈ build.knowledge.nodes) :
      Move setting build visit build.knowledge build.cache [] .waiting
  | claimKnown (deps : List Dependency) (hstage : visit.stage = .arriving)
      (hkey : visit.component.key ∉ build.knowledge.nodes)
      (hcache : (build.cache.ensure visit.component.key).get? visit.component.key =
        some { success := true, deps }) :
      Move setting build visit (build.close visit.component.key).knowledge
        (build.cache.ensure visit.component.key) [] (.looking deps)
  | claimUnknown (hstage : visit.stage = .arriving)
      (hkey : visit.component.key ∉ build.knowledge.nodes) :
      Move setting build visit (build.close visit.component.key).knowledge
        (build.cache.ensure visit.component.key) [] .queued
  | release (hstage : visit.stage = .waiting)
      (hgate : build.knowledge.nodes[visit.component.key]? ≠ some .closed) :
      Move setting build visit build.knowledge build.cache [] .done
  | hit (deps : List Dependency) (hstage : visit.stage = .looking deps)
      (hheld : build.disk.holds visit.component.identity.path = true) :
      Move setting build visit
        ((build.learn visit.component.key deps).openNode visit.component.key).knowledge
        build.cache (freshVisits setting visit deps) (build.joiningStage setting visit deps none)
  | miss (deps : List Dependency) (hstage : visit.stage = .looking deps)
      (hheld : build.disk.holds visit.component.identity.path = false) :
      Move setting build visit build.knowledge build.cache [] .queued
  | lack (hstage : visit.stage = .queued)
      (hrule : setting.registry.find? visit.component.reference.tag = none) :
      Move setting build visit build.knowledge build.cache [] .failing
  | send (hstage : visit.stage = .queued)
      (hrule : setting.registry.find? visit.component.reference.tag ≠ none) :
      Move setting build visit build.knowledge build.cache [] .requesting
  | refuse (failure : FetchFailure) (hstage : visit.stage = .requesting)
      (hresponse : response setting visit = .error failure) :
      Move setting build visit build.knowledge build.cache [] .failing
  | takeDependency (payload : Payload) (warnings : List Warning)
      (hstage : visit.stage = .requesting)
      (hresponse : response setting visit = .ok (payload, warnings))
      (hchild : visit.isChild = true) :
      Move setting build visit (build.learn visit.component.key payload.deps).knowledge
        build.cache [] (.writing payload)
  | takeEntry (payload : Payload) (warnings : List Warning) (hstage : visit.stage = .requesting)
      (hresponse : response setting visit = .ok (payload, warnings))
      (hchild : visit.isChild = false) :
      Move setting build visit
        ((build.learn visit.component.key payload.deps).openNode visit.component.key).knowledge
        build.cache (freshVisits setting visit payload.deps)
        (build.joiningStage setting visit payload.deps (some payload))
  | apologize (hstage : visit.stage = .failing) :
      Move setting build visit
        ((build.openSubtree visit.component.key).openNode visit.component.key).knowledge
        build.cache [] .done
  | writeDependency (payload : Payload) (cache : Cache) (hstage : visit.stage = .writing payload)
      (hcache : cache = build.cache ∨
        cache = build.cache.recordSuccess visit.component.key payload.deps) :
      Move setting build visit (build.openNode visit.component.key).knowledge cache
        (freshVisits setting visit payload.deps)
        (build.joiningStage setting visit payload.deps none)
  | joinDependency (children : List Nat) (hstage : visit.stage = .joining children none)
      (hdone : children.all build.isDone = true) :
      Move setting build visit (build.openSubtree visit.component.key).knowledge build.cache []
        .done
  | joinEntry (children : List Nat) (payload : Payload)
      (hstage : visit.stage = .joining children (some payload))
      (hdone : children.all build.isDone = true) :
      Move setting build visit (build.openSubtree visit.component.key).knowledge build.cache []
        (.gathering payload
          { seen := [visit.component.key], found := []
            pending := payload.deps.map visit.component.reference.child })
  | pass (payload : Payload) (gathering : Gathering) (reference : Reference)
      (pending : List Reference) (hstage : visit.stage = .gathering payload gathering)
      (hpending : gathering.pending = reference :: pending)
      (hseen : (named setting reference).key ∈ gathering.seen) :
      Move setting build visit build.knowledge build.cache []
        (.gathering payload { gathering with pending })
  | gather (payload : Payload) (gathering : Gathering) (reference : Reference)
      (pending : List Reference) (hstage : visit.stage = .gathering payload gathering)
      (hpending : gathering.pending = reference :: pending)
      (hseen : (named setting reference).key ∉ gathering.seen)
      (hgate : build.knowledge.subtrees[(named setting reference).key]? ≠ some .closed) :
      Move setting build visit build.knowledge build.cache []
        (.gathering payload
          { seen := (named setting reference).key :: gathering.seen
            found := gathering.found ++ [.of reference (named setting reference).identity]
            pending :=
              (build.knowledge.deps[(named setting reference).key]?.getD []).map reference.child
                ++ pending })
  | writeEntry (payload : Payload) (gathering : Gathering) (cache : Cache)
      (hstage : visit.stage = .gathering payload gathering) (hpending : gathering.pending = [])
      (hcache : cache = build.cache ∨
        cache = build.cache.recordSuccess visit.component.key payload.deps) :
      Move setting build visit build.knowledge cache [] .done

/-- A step by the visit with that index. -/
structure Advances (setting : BuildSetting) (build : Build) (index : Nat) (visit : Visit)
    (children : List Visit) (stage : Stage) (next : Build) : Prop where
  found : build.visits[index]? = some visit
  move : Move setting build visit next.knowledge next.cache children stage
  visits : next.visits =
    (build.visits ++ children).modify index fun other => { other with stage }
  disk : next.disk = (build.disk.perform setting.workshop (visit.deed? setting)).1
  errors : next.writeErrors =
    if (build.disk.perform setting.workshop (visit.deed? setting)).2.isOk then build.writeErrors
    else build.writeErrors.modify visit.run (· + 1)

/-! ### The steps as moves -/

section Steps

variable {setting : BuildSetting} {build next : Build} {index : Nat} {visit : Visit}

theorem writeErrors_count (run : Nat) (change : Report → Report) :
    (build.count run change).writeErrors =
      (build.reports.modify run change).map (·.writeErrors) :=
  rfl

theorem map_modify {α β : Type} (f : α → β) (change : α → α) (change' : β → β)
    (h : ∀ item, f (change item) = change' (f item)) (items : List α) (index : Nat) :
    (items.modify index change).map f = (items.map f).modify index change' := by
  apply List.ext_getElem?
  intro i
  rw [List.getElem?_map, List.getElem?_modify, List.getElem?_modify, List.getElem?_map]
  split
  · cases items[i]? with
    | none => rfl
    | some item => simp [h]
  · simp

theorem writeErrors_count_eq (build : Build) (run : Nat) {change : Report → Report}
    (h : ∀ report, (change report).writeErrors = report.writeErrors) :
    (build.count run change).writeErrors = build.writeErrors := by
  rw [writeErrors_count, map_modify (·.writeErrors) change id (fun report => h report)]
  simp [writeErrors]

theorem foldl_cycles (build : Build) (cyclic : List NamedReference) (run : Nat)
    (reference : Reference) :
    ∃ warnings reports, cyclic.foldl (fun build child =>
        (build.warn (.dependencyCycle reference child.reference)).count run
          fun report => { report with cycles := report.cycles + 1 }) build =
        { build with warnings, reports } ∧
      reports.map (·.writeErrors) = build.writeErrors := by
  induction cyclic generalizing build with
  | nil => exact ⟨build.warnings, build.reports, rfl, rfl⟩
  | cons child cyclic ih =>
      let build' := (build.warn (.dependencyCycle reference child.reference)).count run
        fun report => { report with cycles := report.cycles + 1 }
      obtain ⟨warnings, reports, hfold, herrors⟩ := ih build'
      refine ⟨warnings, reports, hfold, herrors.trans ?_⟩
      exact writeErrors_count_eq (build.warn _) run fun _ => rfl

theorem visitDeps_eq (build : Build) (setting : BuildSetting) (index : Nat) (visit : Visit)
    (deps : List Dependency) (entry : Option Payload) :
    ∃ warnings reports, build.visitDeps setting index visit deps entry =
        { build with
          warnings, reports
          visits := (build.visits ++ freshVisits setting visit deps).modify index fun other =>
            { other with stage := build.joiningStage setting visit deps entry } } ∧
      reports.map (·.writeErrors) = build.writeErrors := by
  unfold visitDeps
  dsimp only
  rw [List.partition_eq_filter_filter]
  dsimp only
  obtain ⟨warnings, reports, hfold, herrors⟩ := foldl_cycles build
    ((deps.map fun dep => named setting (visit.component.reference.child dep)).filter fun child =>
      (visit.ancestors ++ [visit.component.key]).contains child.key)
    visit.run visit.component.reference
  rw [hfold]
  exact ⟨warnings, reports, by simp [freshVisits, joiningStage, atStage, Function.comp_def], herrors⟩

theorem writeModules_eq (build : Build) (workshop : Workshop) (visit : Visit) (deed : Deed) :
    ∃ reports, build.writeModules visit (deed.files workshop) =
        ({ build with disk := (build.disk.perform workshop (some deed)).1, reports },
          (build.disk.perform workshop (some deed)).2.isOk) ∧
      reports.map (·.writeErrors) =
        if (build.disk.perform workshop (some deed)).2.isOk then build.writeErrors
        else build.writeErrors.modify visit.run (· + 1) := by
  have hperform : build.disk.perform workshop (some deed) = build.disk.writeAll
      ((deed.files workshop).map fun file => (file.path, file.content)) := rfl
  rw [hperform]
  unfold writeModules
  cases hwritten : build.disk.writeAll
      ((deed.files workshop).map fun file => (file.path, file.content)) with
  | mk disk outcome =>
      cases outcome with
      | ok count => exact ⟨build.reports, rfl, rfl⟩
      | error failure =>
          refine ⟨build.reports.modify visit.run fun report =>
            { report with writeErrors := report.writeErrors + 1 }, rfl, ?_⟩
          rw [map_modify Report.writeErrors _ (· + 1) fun _ => rfl]
          rfl

theorem settle_eq (build : Build) (workshop : Workshop) (visit : Visit) (payload : Payload)
    (deed : Deed) :
    ∃ cache reports, build.settle visit payload (deed.files workshop) =
        { build with cache, disk := (build.disk.perform workshop (some deed)).1, reports } ∧
      (cache = build.cache ∨
        cache = build.cache.recordSuccess visit.component.key payload.deps) ∧
      reports.map (·.writeErrors) =
        if (build.disk.perform workshop (some deed)).2.isOk then build.writeErrors
        else build.writeErrors.modify visit.run (· + 1) := by
  obtain ⟨reports, hwritten, herrors⟩ := build.writeModules_eq workshop visit deed
  unfold settle
  rw [hwritten]
  cases hok : (build.disk.perform workshop (some deed)).2.isOk with
  | false =>
      rw [hok] at herrors
      exact ⟨build.cache, reports, rfl, .inl rfl, herrors⟩
  | true =>
      rw [hok] at herrors
      refine ⟨_, _, rfl, .inr rfl, Eq.trans ?_ herrors⟩
      exact writeErrors_count_eq { build with reports } visit.run fun _ => rfl

variable {children : List Visit} {stage : Stage}

theorem Advances.of_quiet (build' : Build) (hfound : build.visits[index]? = some visit)
    (hvisits : build'.visits = build.visits) (hdisk : build'.disk = build.disk)
    (herrors : build'.writeErrors = build.writeErrors) (hdeed : visit.deed? setting = none)
    (hmove : Move setting build visit build'.knowledge build'.cache [] stage) :
    Advances setting build index visit [] stage (build'.atStage index stage) where
  found := hfound
  move := hmove
  visits := by simp [atStage, hvisits]
  disk := by simp [atStage, hdeed, Disk.perform, hdisk]
  errors := by
    rw [hdeed]
    exact herrors

theorem Advances.of_visitDeps (build' : Build) {deps : List Dependency} {entry : Option Payload}
    (hfound : build.visits[index]? = some visit) (hvisits : build'.visits = build.visits)
    (hdisk : build'.disk = (build.disk.perform setting.workshop (visit.deed? setting)).1)
    (herrors : build'.writeErrors =
      if (build.disk.perform setting.workshop (visit.deed? setting)).2.isOk then build.writeErrors
      else build.writeErrors.modify visit.run (· + 1))
    (hmove : Move setting build visit build'.knowledge build'.cache
      (freshVisits setting visit deps) (build.joiningStage setting visit deps entry)) :
    Advances setting build index visit (freshVisits setting visit deps)
      (build.joiningStage setting visit deps entry)
      (build'.visitDeps setting index visit deps entry) := by
  obtain ⟨warnings, reports, heq, hreports⟩ :=
    build'.visitDeps_eq setting index visit deps entry
  rw [heq]
  exact {
    found := hfound
    move := hmove
    visits := by rw [← hvisits, joiningStage, joiningStage, hvisits]
    disk := hdisk
    errors := hreports.trans herrors }

theorem deed?_eq_none (hfailing : visit.stage ≠ .failing)
    (hwriting : ∀ payload, visit.stage ≠ .writing payload)
    (hgathering : ∀ payload gathering, visit.stage ≠ .gathering payload gathering) :
    visit.deed? setting = none := by
  unfold Visit.deed?
  cases hstage : visit.stage with
  | failing => exact absurd hstage hfailing
  | writing payload => exact absurd hstage (hwriting payload)
  | gathering payload gathering => exact absurd hstage (hgathering payload gathering)
  | _ => rfl

/-! Each stage with its steps. -/

theorem advances_arrive (hfound : build.visits[index]? = some visit)
    (hstage : visit.stage = .arriving) :
    ∃ children stage,
      Advances setting build index visit children stage (build.arrive index visit) := by
  have hdeed : visit.deed? setting = none :=
    deed?_eq_none (by simp [hstage]) (by simp [hstage]) (by simp [hstage])
  unfold arrive
  dsimp only
  split
  · next hkey =>
      exact ⟨_, _, .of_quiet _ hfound rfl rfl rfl hdeed
        (.wait hstage (Std.ExtTreeMap.contains_iff_mem.1 hkey))⟩
  · next hkey =>
      have hnew := mt Std.ExtTreeMap.contains_iff_mem.2 hkey
      split
      · next deps hcache =>
          let claimed : Build :=
            { build.close visit.component.key with
              cache := build.cache.ensure visit.component.key }
          exact ⟨_, _, Advances.of_quiet claimed hfound rfl rfl rfl hdeed
            (.claimKnown deps hstage hnew hcache)⟩
      · let claimed : Build :=
          { build.close visit.component.key with cache := build.cache.ensure visit.component.key }
        exact ⟨_, _, Advances.of_quiet claimed hfound rfl rfl rfl hdeed
          (.claimUnknown hstage hnew)⟩

theorem advances_look {deps : List Dependency} (hfound : build.visits[index]? = some visit)
    (hstage : visit.stage = .looking deps) :
    ∃ children stage,
      Advances setting build index visit children stage (build.look setting index visit deps) := by
  have hdeed : visit.deed? setting = none :=
    deed?_eq_none (by simp [hstage]) (by simp [hstage]) (by simp [hstage])
  unfold look
  dsimp only
  split
  · next hheld =>
      refine ⟨_, _, Advances.of_visitDeps _ hfound ?_ ?_ ?_ (.hit deps hstage hheld)⟩
      · rfl
      · rw [hdeed]
        rfl
      · rw [hdeed]
        exact writeErrors_count_eq build visit.run fun _ => rfl
  · next hheld =>
      exact ⟨_, _, Advances.of_quiet (build.warn _) hfound rfl rfl rfl hdeed
        (.miss deps hstage (by simpa using hheld))⟩

theorem advances_fail {failure : FetchFailure} (hfound : build.visits[index]? = some visit)
    (hdeed : visit.deed? setting = none)
    (hmove : Move setting build visit build.knowledge build.cache [] .failing) :
    ∃ children stage,
      Advances setting build index visit children stage (build.fail index visit failure) := by
  unfold fail
  exact ⟨_, _, Advances.of_quiet _ hfound rfl rfl
    (writeErrors_count_eq (build.warn _) visit.run fun _ => rfl) hdeed hmove⟩

theorem advances_send? (hfound : build.visits[index]? = some visit)
    (hstage : visit.stage = .queued) (hnext : build.send? setting index visit = some next) :
    ∃ children stage, Advances setting build index visit children stage next := by
  have hdeed : visit.deed? setting = none :=
    deed?_eq_none (by simp [hstage]) (by simp [hstage]) (by simp [hstage])
  unfold send? at hnext
  dsimp only at hnext
  split at hnext
  · next hrule =>
      cases hnext
      exact advances_fail hfound hdeed (.lack hstage hrule)
  · next rule hrule =>
      split at hnext
      · cases hnext
        exact ⟨_, _, Advances.of_quiet { build with requests := _ } hfound rfl rfl rfl
          hdeed (.send hstage (by simp [hrule]))⟩
      · cases hnext

theorem advances_receive (hfound : build.visits[index]? = some visit)
    (hstage : visit.stage = .requesting) :
    ∃ children stage,
      Advances setting build index visit children stage (build.receive setting index visit) := by
  have hdeed : visit.deed? setting = none :=
    deed?_eq_none (by simp [hstage]) (by simp [hstage]) (by simp [hstage])
  unfold receive
  split
  · next failure hresponse => exact advances_fail hfound hdeed (.refuse failure hstage hresponse)
  · next payload warnings hresponse =>
      dsimp only
      split
      · next hchild =>
          exact ⟨_, _, Advances.of_quiet
            ({ build with warnings := build.warnings ++ warnings }.learn
              visit.component.key payload.deps)
            hfound rfl rfl rfl hdeed (.takeDependency payload warnings hstage hresponse hchild)⟩
      · next hchild =>
          refine ⟨_, _, Advances.of_visitDeps _ hfound ?_ ?_ ?_
            (.takeEntry payload warnings hstage hresponse (by simpa using hchild))⟩
          · rfl
          · rw [hdeed]
            rfl
          · rw [hdeed]
            rfl

theorem advances_writeError (hfound : build.visits[index]? = some visit)
    (hstage : visit.stage = .failing) :
    ∃ children stage,
      Advances setting build index visit children stage
        (build.writeError setting index visit) := by
  have hdeed : visit.deed? setting = some (.message visit.component.reference) := by
    rw [Visit.deed?, hstage]
  obtain ⟨reports, hwritten, herrors⟩ :=
    build.writeModules_eq setting.workshop visit (.message visit.component.reference)
  unfold writeError
  rw [← hdeed] at hwritten herrors
  rw [Deed.files] at hwritten
  rw [hwritten]
  exact ⟨[], .done,
    { found := hfound
      move := .apologize hstage
      visits := by simp [atStage, openNode, openSubtree]
      disk := by simp only [atStage, openNode, openSubtree]
      errors := herrors }⟩

theorem advances_writeDependency {payload : Payload} (hfound : build.visits[index]? = some visit)
    (hstage : visit.stage = .writing payload) :
    ∃ children stage,
      Advances setting build index visit children stage
        (build.writeDependency setting index visit payload) := by
  have hdeed : visit.deed? setting =
      some (.dependency visit.component.reference payload
        (directRegistrations setting visit.component.reference payload.deps)) := by
    rw [Visit.deed?, hstage]
  obtain ⟨cache, reports, hsettled, hcache, herrors⟩ :=
    build.settle_eq setting.workshop visit payload
      (.dependency visit.component.reference payload
        (directRegistrations setting visit.component.reference payload.deps))
  unfold writeDependency
  rw [← hdeed] at hsettled herrors
  rw [Deed.files] at hsettled
  dsimp only
  rw [hsettled]
  refine ⟨_, _, Advances.of_visitDeps _ hfound ?_ ?_ ?_ (.writeDependency payload cache hstage hcache)⟩
  · rfl
  · simp only [openNode]
  · exact herrors

theorem advances_join? {children : List Nat} {entry : Option Payload}
    (hfound : build.visits[index]? = some visit) (hstage : visit.stage = .joining children entry)
    (hnext : build.join? index visit children entry = some next) :
    ∃ children stage, Advances setting build index visit children stage next := by
  have hdeed : visit.deed? setting = none :=
    deed?_eq_none (by simp [hstage]) (by simp [hstage]) (by simp [hstage])
  unfold join? at hnext
  dsimp only at hnext
  split at hnext
  · next hdone =>
      cases hnext
      cases entry with
      | none =>
          exact ⟨_, _, .of_quiet _ hfound rfl rfl rfl hdeed (.joinDependency children hstage hdone)⟩
      | some payload =>
          exact ⟨_, _, .of_quiet _ hfound rfl rfl rfl hdeed
            (.joinEntry children payload hstage hdone)⟩
  · cases hnext

theorem advances_gather? {payload : Payload} {gathering : Gathering}
    (hfound : build.visits[index]? = some visit)
    (hstage : visit.stage = .gathering payload gathering)
    (hnext : build.gather? setting index visit payload gathering = some next) :
    ∃ children stage, Advances setting build index visit children stage next := by
  unfold gather? at hnext
  split at hnext
  · next hpending =>
      have hdeed : visit.deed? setting =
          some (.entry visit.component.reference payload gathering.found) := by
        rw [Visit.deed?, hstage]
        dsimp only
        rw [hpending]
      obtain ⟨cache, reports, hsettled, hcache, herrors⟩ :=
        build.settle_eq setting.workshop visit payload
          (.entry visit.component.reference payload gathering.found)
      rw [← hdeed] at hsettled herrors
      rw [Deed.files] at hsettled
      dsimp only at hnext
      rw [hsettled] at hnext
      obtain rfl := Option.some.inj hnext
      exact ⟨[], .done,
        { found := hfound
          move := .writeEntry payload gathering cache hstage hpending hcache
          visits := by simp [atStage]
          disk := by simp only [atStage]
          errors := herrors }⟩
  · next reference pending hpending =>
      have hdeed : visit.deed? setting = none := by
        rw [Visit.deed?, hstage]
        dsimp only
        rw [hpending]
      dsimp only at hnext
      split at hnext
      · next hseen =>
          cases hnext
          exact ⟨_, _, .of_quiet _ hfound rfl rfl rfl hdeed
            (.pass payload gathering reference pending hstage hpending (by simpa using hseen))⟩
      · next hseen =>
          split at hnext
          · cases hnext
          · next hgate =>
              cases hnext
              exact ⟨_, _, .of_quiet _ hfound rfl rfl rfl hdeed
                (.gather payload gathering reference pending hstage hpending
                  (by simpa using hseen) hgate)⟩

/-- Every step is one of the moves. -/
theorem exists_advances (hnext : build.step? setting index = some next) :
    ∃ visit children stage, Advances setting build index visit children stage next := by
  unfold step? at hnext
  split at hnext
  · cases hnext
  · next visit hfound =>
      refine ⟨visit, ?_⟩
      split at hnext
      · next hstage =>
          obtain rfl := Option.some.inj hnext
          exact advances_arrive hfound hstage
      · next hstage =>
          have hdeed : visit.deed? setting = none :=
            deed?_eq_none (by simp [hstage]) (by simp [hstage]) (by simp [hstage])
          split at hnext
          · cases hnext
          · next hgate =>
              obtain rfl := Option.some.inj hnext
              exact ⟨_, _, .of_quiet _ hfound rfl rfl rfl hdeed (.release hstage hgate)⟩
      · next deps hstage =>
          obtain rfl := Option.some.inj hnext
          exact advances_look hfound hstage
      · next hstage => exact advances_send? hfound hstage hnext
      · next hstage =>
          obtain rfl := Option.some.inj hnext
          exact advances_receive hfound hstage
      · next hstage =>
          obtain rfl := Option.some.inj hnext
          exact advances_writeError hfound hstage
      · next payload hstage =>
          obtain rfl := Option.some.inj hnext
          exact advances_writeDependency hfound hstage
      · next children entry hstage => exact advances_join? hfound hstage hnext
      · next payload gathering hstage => exact advances_gather? hfound hstage hnext
      · cases hnext

end Steps

end Build

end ComponentTags
