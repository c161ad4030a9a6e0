import ComponentTags.Proofs.Build.Claims
import ComponentTags.Proofs.Build.Ledgers
import ComponentTags.Proofs.Build.ServedModules

/-!
Delivery. When a call returns, the components that it asked for have their modules, as far as the
visits that claimed them could write those and are over.
-/

namespace ComponentTags.Build

/-- A call has returned once all visits that it asked for are over. -/
def HasReturned (build : Build) (run : Nat) : Prop :=
  ∀ visit ∈ build.visits, visit.run = run → visit.isChild = false → visit.stage = .done

instance (build : Build) (run : Nat) : Decidable (build.HasReturned run) :=
  inferInstanceAs (Decidable (∀ visit ∈ build.visits,
    visit.run = run → visit.isChild = false → visit.stage = .done))

/--
The module of the component with that key is at its path: what a hit found there is there still, and
a file if it was one, or the file holds a module that was written there.
-/
inductive HasModule (setting : BuildSetting) (turns : List Turn) (disk : Disk)
    (key : ComponentKey) : Prop where
  | found {turn : Turn} {visit : Visit} {deps : List Dependency} (hturn : turn ∈ turns)
      (hhit : turn.Hits visit deps) (hkey : visit.component.key = key)
      (hheld : disk.holds (setting.workshop.naming.modulePath key) = true)
      (hfile : turn.before.disk.isFile (setting.workshop.naming.modulePath key) = true →
        disk.isFile (setting.workshop.naming.modulePath key) = true) :
      HasModule setting turns disk key
  | written {turn : Turn} {deed : Deed} (hturn : turn ∈ turns)
      (hdeed : turn.deed? setting = some deed)
      (hpath : deed.path setting.workshop = setting.workshop.naming.modulePath key)
      (hread : disk.read (setting.workshop.naming.modulePath key) =
        .ok (deed.content setting.workshop)) :
      HasModule setting turns disk key

/-- How the visit that claimed a component left it: its module is there and recorded, or could not
be written, which the run of the visit counts. -/
inductive Handled (setting : BuildSetting) (turns : List Turn) (build : Build) (visit : Visit) :
    Prop where
  | provided (hmodule : HasModule setting turns build.disk visit.component.key)
      (hrecorded : ∀ deps, build.knowledge.deps[visit.component.key]? = some deps →
        build.cache.get? visit.component.key = some { success := true, deps }) :
      Handled setting turns build visit
  | missed {count : Nat} (hcount : build.writeErrors[visit.run]? = some count) (hpos : 0 < count) :
      Handled setting turns build visit

/-- What the visits of a build that claimed their components have done so far. -/
structure AllHandled (setting : BuildSetting) (turns : List Turn) (build : Build)
    (owner : ComponentKey → Option Nat) : Prop where
  handled : ∀ (i : Nat) (visit : Visit), build.visits[i]? = some visit →
    owner visit.component.key = some i → isSettled visit.stage = true →
      Handled setting turns build visit
  looking : ∀ (i : Nat) (visit : Visit) (deps : List Dependency), build.visits[i]? = some visit →
    visit.stage = .looking deps →
      build.cache.get? visit.component.key = some { success := true, deps }
  released : ∀ (i : Nat) (visit : Visit), build.visits[i]? = some visit → visit.stage = .done →
    build.knowledge.nodes[visit.component.key]? = some .opened

theorem Disk.isFile_iff {disk : Disk} {path : Path} :
    disk.isFile path = true ↔ ∃ content, disk.read path = .ok content := by
  unfold Disk.isFile Disk.read
  cases disk.lookup path with
  | error fault => simp
  | ok entry => cases entry <;> simp

section Steps

variable {setting : BuildSetting} {build next : Build} {owner owner' : ComponentKey → Option Nat}
  {index i : Nat} {visit other : Visit} {children : List Visit} {stage : Stage}
  {turns : List Turn} {key : ComponentKey} {reference : Reference}

theorem HasModule.cons
    (h : HasModule setting turns build.disk (setting.workshop.naming.key reference))
    (hproper : setting.workshop.naming.IsProper)
    (hstep : Advances setting build index visit children stage next) :
    HasModule setting (⟨build, index⟩ :: turns) next.disk
      (setting.workshop.naming.key reference) := by
  cases h with
  | found hturn hhit hkey hheld hfile =>
      refine .found (List.mem_cons_of_mem _ hturn) hhit hkey
        (hstep.holds hproper reference hheld) ?_
      intro hwas
      obtain ⟨content, hread⟩ := Disk.isFile_iff.1 (hfile hwas)
      apply Disk.isFile_iff.2
      rcases hstep.read hproper reference hread with hsame | ⟨deed, -, -, hnew⟩
      · exact ⟨content, hsame⟩
      · exact ⟨_, hnew⟩
  | written hturn hdeed hpath hread =>
      rcases hstep.read hproper reference hread with hsame | ⟨deed, hnew, hnewPath, hnewRead⟩
      · exact .written (List.mem_cons_of_mem _ hturn) hdeed hpath hsame
      · refine .written List.mem_cons_self ?_ hnewPath hnewRead
        rw [Turn.deed?, Turn.visit?, hstep.found]
        exact hnew

theorem Advances.errors_mono (hstep : Advances setting build index visit children stage next)
    {run count : Nat} (hcount : build.writeErrors[run]? = some count) :
    ∃ count', next.writeErrors[run]? = some count' ∧ count ≤ count' := by
  rw [hstep.errors]
  split
  · exact ⟨count, hcount, Nat.le_refl _⟩
  · rw [List.getElem?_modify, hcount]
    split
    · exact ⟨count + 1, rfl, Nat.le_succ _⟩
    · exact ⟨count, rfl, Nat.le_refl _⟩

theorem Handled.keep (h : Handled setting turns build other)
    (hproper : setting.workshop.naming.IsProper) (hfaithful : IsFaithful setting other)
    (hstep : Advances setting build index visit children stage next)
    (hcache : next.cache.get? other.component.key = build.cache.get? other.component.key)
    (hdeps : next.knowledge.deps[other.component.key]? =
      build.knowledge.deps[other.component.key]?) :
    Handled setting (⟨build, index⟩ :: turns) next other := by
  cases h with
  | provided hmodule hrecorded =>
      refine .provided ?_ ?_
      · rw [← hfaithful.key] at hmodule ⊢
        exact hmodule.cons hproper hstep
      · rw [hcache, hdeps]
        exact hrecorded
  | missed hcount hpos =>
      obtain ⟨count', hcount', hle⟩ := hstep.errors_mono hcount
      exact .missed hcount' (Nat.lt_of_lt_of_le hpos hle)

/-- A module that is written is there, or that it could not be written is counted. -/
theorem handled_of_deed (hproper : setting.workshop.naming.IsProper) (hcounted : AllCounted build)
    (hfaithful : IsFaithful setting visit)
    (hstep : Advances setting build index visit children stage next) {deed : Deed}
    (hdeed : visit.deed? setting = some deed)
    (hrecorded : manages setting build visit = true → ∀ deps,
      next.knowledge.deps[visit.component.key]? = some deps →
        next.cache.get? visit.component.key = some { success := true, deps }) :
    Handled setting (⟨build, index⟩ :: turns) next { visit with stage } := by
  have hmanages : manages setting build visit =
      (build.disk.perform setting.workshop (some deed)).2.isOk := by
    rw [manages, hdeed]
    rfl
  cases hok : (build.disk.perform setting.workshop (some deed)).2.isOk with
  | true =>
      refine .provided ?_ (hrecorded (hmanages.trans hok))
      have hpath : deed.path setting.workshop =
          setting.workshop.naming.modulePath visit.component.key := by
        rw [← hfaithful.key, ← deed?_reference hdeed]
        rfl
      refine .written List.mem_cons_self ?_ hpath ?_
      · rw [Turn.deed?, Turn.visit?, hstep.found]
        exact hdeed
      · rw [← hpath, hstep.disk, hdeed]
        exact (Disk.attempt_perform hproper build.disk deed).read (Disk.takes_of_perform hok)
  | false =>
      have hrun := hcounted index visit hstep.found
      refine .missed ?_ (Nat.succ_pos build.writeErrors[visit.run])
      rw [hstep.errors, hdeed, hok]
      simp [List.getElem?_eq_getElem hrun]

/-- A node gate that is open before the module is settled is that of an entry under way. -/
theorem Guarded.entry_under_way (h : Guarded setting build owner)
    (hvisit : build.visits[i]? = some visit) (hown : owner visit.component.key = some i)
    (hsuits : Suits visit.isChild visit.stage)
    (hopened : build.knowledge.nodes[visit.component.key]? = some .opened)
    (hsettled : isSettled visit.stage = false) :
    visit.isChild = false ∧ visit.stage ≠ .done := by
  obtain ⟨node, subtree, hgates, hnode, -⟩ := (h.guards hvisit hown).gates
  obtain rfl := Option.some.inj (hopened.symm.trans hnode)
  cases hstage : visit.stage with
  | joining ids entry =>
      rw [hstage] at hsuits hsettled
      cases entry with
      | none => cases hsettled
      | some payload => exact ⟨hsuits, nofun⟩
  | gathering payload gathering =>
      rw [hstage] at hsuits
      exact ⟨hsuits, nofun⟩
  | done =>
      rw [hstage] at hsettled
      cases hsettled
  | _ =>
      rw [hstage] at hgates
      cases hgates

/-- How a visit that claimed its component leaves it when it settles it. -/
theorem AllHandled.settle (h : AllHandled setting turns build owner)
    (hproper : setting.workshop.naming.IsProper) (hfaithful : AllFaithful setting build)
    (hcounted : AllCounted build) (hguarded : Guarded setting build owner)
    (haccounts : Accounts setting build visit next)
    (hstep : Advances setting build index visit children stage next)
    (howner : Extends owner owner' visit.component.key index)
    (hown : owner' visit.component.key = some index) (hsettled : isSettled stage = true) :
    Handled setting (⟨build, index⟩ :: turns) next { visit with stage } := by
  have hvisit := hfaithful index visit hstep.found
  have hrecord := haccounts.cache
  have hbefore : visit.stage ≠ .arriving → owner visit.component.key = some index :=
    fun hstage => hguarded.owner_before hstep.found howner hstage hown
  have hmove := hstep.move
  generalize hknowledge : next.knowledge = knowledge at hmove
  generalize hcache : next.cache = cache at hmove
  cases hmove with
  | release hstage hgate =>
      exact absurd (hbefore (by simp [hstage])) (hguarded.not_owner hstep.found hstage rfl)
  | hit deps hstage hheld =>
      refine .provided (.found List.mem_cons_self ⟨hstep.found, hstage, hheld⟩ rfl ?_ ?_) ?_
      · rw [hstep.disk, Visit.deed?, hstage, ← hvisit.key]
        rw [hvisit.component] at hheld
        exact hheld
      · rw [hstep.disk, Visit.deed?, hstage]
        exact id
      · intro deps' hdeps
        rw [hknowledge, deps_openNode, deps_learn] at hdeps
        obtain rfl := Option.some.inj hdeps
        rw [hcache]
        exact h.looking index visit deps hstep.found hstage
  | apologize hstage =>
      refine handled_of_deed hproper hcounted hvisit hstep (by rw [Visit.deed?, hstage]) ?_
      intro _ deps hdeps
      have hknows := (hguarded.guards hstep.found (hbefore (by simp [hstage]))).knows
      rw [hstage] at hknows
      rw [hknowledge, deps_openNode, deps_openSubtree, show _ = none from hknows] at hdeps
      cases hdeps
  | writeDependency payload cache hstage hwritten =>
      refine handled_of_deed hproper hcounted hvisit hstep (by rw [Visit.deed?, hstage]) ?_
      intro hmanages deps hdeps
      have hknows := (hguarded.guards hstep.found (hbefore (by simp [hstage]))).knows
      rw [hstage] at hknows
      rw [hknowledge, deps_openNode, show _ = some payload.deps from hknows] at hdeps
      obtain rfl := Option.some.inj hdeps
      rw [hrecord]
      simp [cacheAfter, hstage, hmanages, Cache.recordSuccess, Cache.get?]
  | joinDependency ids hstage hdone =>
      have hwas := h.handled index visit hstep.found (hbefore (by simp [hstage]))
        (by rw [hstage]; rfl)
      have hkept := hwas.keep hproper hvisit hstep (by rw [hcache])
        (by rw [hknowledge, deps_openSubtree])
      cases hkept with
      | provided hmodule hrecorded => exact .provided hmodule hrecorded
      | missed hcount hpos => exact .missed hcount hpos
  | writeEntry payload gathering cache hstage hpending hwritten =>
      refine handled_of_deed hproper hcounted hvisit hstep
        (by rw [Visit.deed?, hstage]; simp only [hpending]; rfl) ?_
      intro hmanages deps hdeps
      have hknows := (hguarded.guards hstep.found (hbefore (by simp [hstage]))).knows
      rw [hstage] at hknows
      rw [hknowledge, show _ = some payload.deps from hknows] at hdeps
      obtain rfl := Option.some.inj hdeps
      rw [hrecord]
      simp [cacheAfter, hstage, hpending, hmanages, Cache.recordSuccess, Cache.get?]
  | _ => cases hsettled

theorem AllHandled.advance (h : AllHandled setting turns build owner)
    (hproper : setting.workshop.naming.IsProper) (hfaithful : AllFaithful setting build)
    (hcounted : AllCounted build) (hguarded : Guarded setting build owner)
    (hguarded' : Guarded setting next owner') (hnext : build.step? setting index = some next)
    (hstep : Advances setting build index visit children stage next)
    (howner : Extends owner owner' visit.component.key index) :
    AllHandled setting (⟨build, index⟩ :: turns) next owner' where
  handled i other hother hown hsettled := by
    rcases hstep.visit_cases hother with ⟨rfl, rfl⟩ | ⟨hne, hkept⟩ | ⟨-, -, hchild⟩
    · exact h.settle hproper hfaithful hcounted hguarded (accounts_step hstep.found hnext) hstep
        howner hown hsettled
    · have hwas := (howner.new _ _ hown).resolve_right fun hnew => hne hnew.2.2
      obtain ⟨hcache, -, hdeps⟩ := hguarded.frame hstep hwas hne
      exact (h.handled i other hkept hwas hsettled).keep hproper (hfaithful i other hkept) hstep
        hcache hdeps
    · rw [hchild.stage] at hsettled
      cases hsettled
  looking i other deps hother hstage := by
    have hown := hguarded'.owner_eq hother hstage trivial
    rcases hstep.visit_cases hother with ⟨rfl, rfl⟩ | ⟨hne, hkept⟩ | ⟨-, -, hchild⟩
    · have hmove := hstep.move
      generalize next.cache = cache at hmove ⊢
      generalize next.knowledge = knowledge at hmove
      cases hmove with
      | claimKnown deps' harriving hkey hcache =>
          cases hstage
          exact hcache
      | _ => cases hstage
    · have hwas := hguarded.owner_eq hkept hstage trivial
      rw [(hguarded.frame hstep hwas hne).1]
      exact h.looking i other deps hkept hstage
    · rw [hchild.stage] at hstage
      cases hstage
  released i other hother hdone := by
    rcases hstep.visit_cases hother with ⟨rfl, rfl⟩ | ⟨-, hkept⟩ | ⟨-, -, hchild⟩
    · by_cases hown : owner' visit.component.key = some i
      · exact ((hguarded'.guards hstep.own hown).gates_eq hdone rfl).1
      · have hidle : ∀ {stage'}, visit.stage = stage' → ¬IsUnderWay stage' := fun hstage hway =>
          hown (howner.kept _ _ (hguarded.owner_eq hstep.found hstage hway))
        have hmove := hstep.move
        generalize next.knowledge = knowledge at hmove ⊢
        generalize next.cache = cache at hmove
        cases hmove with
        | release hstage hgate =>
            have hwas := hguarded.not_owner hstep.found hstage rfl
            have hsome : (owner visit.component.key).isSome := by
              rcases hguarded.others i visit hstep.found hwas with harriving | ⟨-, hsome⟩
              · cases hstage.symm.trans harriving
              · exact hsome
            have hmem := (hguarded.isSome_iff _).1 hsome
            obtain ⟨gate, hfound⟩ := Option.isSome_iff_exists.1
              (Std.ExtTreeMap.mem_iff_isSome_getElem?.1 hmem)
            cases gate with
            | closed => exact absurd hfound hgate
            | opened => exact hfound
        | apologize hstage => exact absurd trivial (hidle hstage)
        | joinDependency ids hstage => exact absurd trivial (hidle hstage)
        | writeEntry payload gathering cache hstage => exact absurd trivial (hidle hstage)
        | _ => cases hdone
    · exact hstep.node_opened (h.released i other hkept hdone)
    · rw [hchild.stage] at hdone
      cases hdone

theorem AllHandled.begin (h : AllHandled setting turns build owner)
    (components : List NamedReference) :
    AllHandled setting turns (build.begin components) owner where
  handled i visit hvisit hown hsettled := by
    rcases getElem?_begin hvisit with hold | ⟨harriving, -, -⟩
    · cases h.handled i visit hold hown hsettled with
      | provided hmodule hrecorded => exact .provided hmodule hrecorded
      | missed hcount hpos =>
          refine .missed ?_ hpos
          have hlt := (List.getElem?_eq_some_iff.1 hcount).1
          rw [writeErrors, Build.begin, List.map_append, ← hcount]
          exact List.getElem?_append_left hlt
    · rw [harriving] at hsettled
      cases hsettled
  looking i visit deps hvisit hstage := by
    rcases getElem?_begin hvisit with hold | ⟨harriving, -, -⟩
    · exact h.looking i visit deps hold hstage
    · cases harriving.symm.trans hstage
  released i visit hvisit hdone := by
    rcases getElem?_begin hvisit with hold | ⟨harriving, -, -⟩
    · exact h.released i visit hold hdone
    · cases harriving.symm.trans hdone

end Steps

section Runs

variable {setting : BuildSetting} {start before build : Build} {turns more : List Turn}
  {cache : Cache} {disk : Disk} {references : List Reference} {reference : Reference}

theorem Run.allHandled (hproper : setting.workshop.naming.IsProper)
    (hrun : Run setting (Build.start cache disk) turns build) :
    ∃ owner, Tracked setting cache turns build owner ∧ AllHandled setting turns build owner := by
  refine hrun.invariant (motive := AllHandled setting) hproper ?_ ?_ ?_
  · exact ⟨fun i visit hvisit => by simp [Build.start] at hvisit,
      fun i visit deps hvisit => by simp [Build.start] at hvisit,
      fun i visit hvisit => by simp [Build.start] at hvisit⟩
  · intro turns build owner references htracked hhandled
    exact hhandled.begin _
  · intro turns build owner index visit children stage next owner' htracked hpassage hhandled
    exact hhandled.advance hproper htracked.sound.faithful htracked.sound.counted
      htracked.sound.guarded hpassage.guarded hpassage.taken hpassage.advances hpassage.owners

/-- When a build is over, the gates of every component that was met are open. -/
theorem Guarded.opened_of_isFinished {owner : ComponentKey → Option Nat}
    (h : Guarded setting build owner) (hfinished : build.isFinished = true) {key : ComponentKey}
    (hmet : (owner key).isSome) :
    ∃ (i : Nat) (visit : Visit), build.visits[i]? = some visit ∧ visit.component.key = key ∧
      owner key = some i ∧ visit.stage = .done ∧ build.knowledge.nodes[key]? = some .opened ∧
      build.knowledge.subtrees[key]? = some .opened := by
  obtain ⟨i, hown⟩ := Option.isSome_iff_exists.1 hmet
  obtain ⟨visit, hvisit, rfl, hguards⟩ := h.owned key i hown
  have hdone : visit.stage = .done := by
    simpa using List.all_eq_true.1 hfinished visit (List.mem_of_getElem? hvisit)
  obtain ⟨hnode, hsubtree⟩ := hguards.gates_eq hdone rfl
  exact ⟨i, visit, hvisit, rfl, hown, hdone, hnode, hsubtree⟩

/-- When a build is over, every component that was met is handled. -/
theorem AllHandled.of_isFinished {owner : ComponentKey → Option Nat}
    (h : AllHandled setting turns build owner) (hguarded : Guarded setting build owner)
    (hfinished : build.isFinished = true) {key : ComponentKey} (hmet : (owner key).isSome) :
    ∃ (i : Nat) (visit : Visit), build.visits[i]? = some visit ∧ visit.component.key = key ∧
      Handled setting turns build visit := by
  obtain ⟨i, visit, hvisit, rfl, hown, hdone, -⟩ := hguarded.opened_of_isFinished hfinished hmet
  exact ⟨i, visit, hvisit, rfl, h.handled i visit hvisit hown (by rw [hdone]; rfl)⟩

/-- A hit is on a component that the cache knew at the start. -/
theorem Run.cached_of_hits (hproper : setting.workshop.naming.IsProper)
    (hrun : Run setting (Build.start cache disk) turns build) {turn : Turn} {visit : Visit}
    {deps : List Dependency} (hturn : turn ∈ turns) (hhit : turn.Hits visit deps) :
    cache.get? visit.component.key = some { success := true, deps } := by
  obtain ⟨-, -, hcached⟩ := hrun.invariant
    (motive := fun turns _ _ => ∀ turn ∈ turns, ∀ visit deps, turn.Hits visit deps →
      cache.get? visit.component.key = some { success := true, deps }) hproper
    (fun _ hturn => nomatch hturn) (fun _ _ hcached => hcached)
    (fun htracked hpassage hcached turn hturn visit deps hhit => by
      rcases List.mem_cons.1 hturn with rfl | hearlier
      · exact htracked.sound.taught.looking _ visit deps hhit.1 hhit.2.1
      · exact hcached turn hearlier visit deps hhit)
  exact hcached turn hturn visit deps hhit

/-- A component that a call asks for is visited by it. -/
theorem visit_of_begin (hmem : reference ∈ references) :
    ∃ (i : Nat) (visit : Visit),
      (before.begin (references.map (named setting))).visits[i]? = some visit ∧
        visit.component = named setting reference ∧ visit.isChild = false ∧
          visit.run = before.reports.length := by
  obtain ⟨i, hi⟩ := List.mem_iff_getElem?.1
    (List.mem_append_right before.visits (List.mem_map_of_mem (List.mem_map_of_mem hmem)))
  exact ⟨i, _, hi, rfl, rfl, rfl⟩

/--
**A call delivers what it was asked for.** When it returns, each component that it asked for has its
module, or its report counts that a module could not be written; if another call claimed the
component, the report of that one does, or that one asked for it too and has not returned.
-/
theorem module_delivered {dialect : Dialect} {directory : Path} {renderer start : String}
    (hworkshop : setting.workshop = .of dialect directory renderer start)
    (hbefore : Run setting (Build.start cache disk) turns before)
    (hrun : Run setting (before.begin (references.map (named setting))) more build)
    (hreturned : build.HasReturned before.reports.length) (hmem : reference ∈ references) :
    ∃ turn ∈ more ++ turns, ∃ claimant, turn.Claims claimant ∧
      claimant.component.key = setting.workshop.naming.key reference ∧
      (HasModule setting (more ++ turns) build.disk (setting.workshop.naming.key reference) ∨
        (∃ report, build.reports[claimant.run]? = some report ∧ 0 < report.writeErrors) ∨
        claimant.run ≠ before.reports.length ∧ claimant.isChild = false ∧
          ¬build.HasReturned claimant.run) := by
  have hproper : setting.workshop.naming.IsProper := by
    rw [hworkshop]
    exact Naming.isProper_of _ dialect start
  obtain ⟨owner, htracked, hhandled⟩ := ((hbefore.begin references).trans hrun).allHandled hproper
  obtain ⟨i, asked, hasked, hcomponent, hisChild, hasks⟩ := visit_of_begin hmem
  obtain ⟨stage, hvisit⟩ := hrun.remains hasked
  have hdone : stage = .done := hreturned _ (List.mem_of_getElem? hvisit) hasks hisChild
  have hopened := hhandled.released i _ hvisit hdone
  rw [show asked.component.key = setting.workshop.naming.key reference from
    congrArg NamedReference.key hcomponent] at hopened
  -- The node gate is open, so some visit claimed the component, and it is past writing unless it is
  -- an entry that is still under way.
  have hmet : (owner (setting.workshop.naming.key reference)).isSome := by
    rw [htracked.sound.guarded.isSome_iff, Std.ExtTreeMap.mem_iff_isSome_getElem?, hopened]
    rfl
  obtain ⟨j, hown⟩ := Option.isSome_iff_exists.1 hmet
  obtain ⟨turn, hturn, claimant, rfl, hclaims, hkey⟩ := htracked.claimed.claimed _ j hown
  obtain ⟨-, stage', hclaimant⟩ := htracked.claimed.owns turn hturn claimant hclaims
  have hown' : owner claimant.component.key = some turn.index := by rw [hkey, hown]
  refine ⟨turn, hturn, claimant, hclaims, hkey, ?_⟩
  cases hsettled : isSettled stage' with
  | true =>
      cases hhandled.handled _ _ hclaimant hown' hsettled with
      | provided hmodule hrecorded =>
          rw [hkey] at hmodule
          exact .inl hmodule
      | missed hcount hpos =>
          rw [writeErrors, List.getElem?_map] at hcount
          obtain ⟨report, hreport, rfl⟩ := Option.map_eq_some_iff.1 hcount
          exact .inr (.inl ⟨report, hreport, hpos⟩)
  | false =>
      have hisEntry := htracked.sound.guarded.entry_under_way hclaimant hown'
        (htracked.sound.faithful _ _ hclaimant).suits (by rw [← hopened, ← hkey]) hsettled
      have hunder : ¬build.HasReturned claimant.run := fun hreturns =>
        hisEntry.2 (hreturns _ (List.mem_of_getElem? hclaimant) rfl hisEntry.1)
      refine .inr (.inr ⟨?_, hisEntry.1, hunder⟩)
      intro heq
      rw [heq] at hunder
      exact hunder hreturned

set_option maxRecDepth 100000 in
theorem module_delivered_of_menu :
    ∃ turns build, Run menuSetting ((Build.start .inMemory .empty).begin ([menu].map
        (named menuSetting))) turns build ∧ build.HasReturned 0 ∧ menu ∈ [menu] ∧
      ∃ turn ∈ turns, ∃ claimant, turn.Claims claimant ∧
        claimant.component.key = menuSetting.workshop.naming.key menu ∧
        (HasModule menuSetting turns build.disk (menuSetting.workshop.naming.key menu) ∨
          (∃ report, build.reports[claimant.run]? = some report ∧ 0 < report.writeErrors) ∨
          claimant.run ≠ 0 ∧ claimant.isChild = false ∧ ¬build.HasReturned claimant.run) := by
  have hbefore : Run menuSetting (Build.start .inMemory .empty) [] (Build.start .inMemory .empty) :=
    .start
  have hopening : Run menuSetting ((Build.start .inMemory .empty).begin ([menu].map
      (named menuSetting))) [] ((Build.start .inMemory .empty).begin ([menu].map
        (named menuSetting))) := .start
  obtain ⟨turns, hrun⟩ := hopening.exists_sweep [0, 0, 0, 0, 0]
  have hstrides : (strides? menuSetting [] ((Build.start .inMemory .empty).begin ([menu].map
      (named menuSetting))) [0, 0, 0, 0, 0]).any (fun last => last.HasReturned 0) = true := by
    decide +kernel
  have hfaithful := (allFaithful_start menuSetting .inMemory .empty).begin [menu]
  obtain ⟨last, disk, hlast, hsweep, -⟩ := isReady_menuSetting.exists_last hfaithful hstrides
  have hreturned : servedBuild.HasReturned 0 := by
    rw [servedBuild, hsweep]
    exact of_decide_eq_true hlast
  have hdelivered := module_delivered rfl hbefore hrun hreturned (List.mem_singleton_self menu)
  rw [List.append_nil] at hdelivered
  exact ⟨turns, servedBuild, hrun, hreturned, List.mem_singleton_self menu, hdelivered⟩

/-! ### Calls that return without a module -/

/-- A call returns, counts no write error, and a component that it asked for has no file. -/
def MissesFile (setting : BuildSetting) (cache : Cache) (disk : Disk) (reference : Reference) :
    Prop :=
  ∃ (turns more : List Turn) (before build : Build) (references : List Reference)
      (report : Report),
    Run setting (Build.start cache disk) turns before ∧
      Run setting (before.begin (references.map (named setting))) more build ∧
      build.HasReturned before.reports.length ∧ reference ∈ references ∧
      build.reports[before.reports.length]? = some report ∧ report.writeErrors = 0 ∧
      build.disk.isFile (setting.workshop.naming.identity reference).path = false

/-- A disk with a folder where the module of `menu` would go. -/
def obstructedDisk : Disk :=
  ((Disk.empty.put ["w"] .directory).put ["com", "w"] .directory).put [menuName, "com", "w"]
    .directory

/-- A cache that says that `menu` was fetched. -/
def menuCache : Cache :=
  Cache.inMemory.recordSuccess (menuSetting.workshop.naming.key menu) []

theorem missesFile_of_sweeps {cache : Cache} {disk : Disk} (first second : List Nat)
    (asked : List Reference) {before build : Build}
    (hfirst : ((Build.start cache disk).begin (asked.map (named setting))).sweep setting first =
      before)
    (hsecond : (before.begin ([reference].map (named setting))).sweep setting second = build)
    (hreturned : build.HasReturned before.reports.length)
    (hreport : (build.reports[before.reports.length]?).map (·.writeErrors) = some 0)
    (hfile : build.disk.isFile (setting.workshop.naming.identity reference).path = false) :
    MissesFile setting cache disk reference := by
  have hstart : Run setting (Build.start cache disk) [] (Build.start cache disk) := .start
  obtain ⟨turns, hbefore⟩ := (hstart.begin asked).exists_sweep first
  have hbegin : Run setting (before.begin ([reference].map (named setting))) []
      (before.begin ([reference].map (named setting))) := .start
  obtain ⟨more, hrun⟩ := hbegin.exists_sweep second
  rw [hfirst] at hbefore
  rw [hsecond] at hrun
  obtain ⟨report, hreport, hzero⟩ := Option.map_eq_some_iff.1 hreport
  exact ⟨turns, more, before, build, [reference], report, hbefore, hrun, hreturned,
    List.mem_singleton_self reference, hreport, hzero, hfile⟩

set_option maxRecDepth 100000 in
/-- A second call after a write that failed, a call that overtakes the entry that another one is
about to write, and a hit on a folder. -/
theorem calls_miss_files :
    MissesFile menuSetting .inMemory obstructedDisk menu ∧
      MissesFile menuSetting .inMemory .empty ⟨"ui", "app", "1"⟩ ∧
      MissesFile menuSetting menuCache obstructedDisk menu := by
  refine ⟨?_, ?_, ?_⟩
  · exact missesFile_of_sweeps [0, 0, 0, 0, 0] [1, 1] [menu] rfl rfl (by decide +kernel)
      (by decide +kernel) (by decide +kernel)
  · exact missesFile_of_sweeps [0, 0, 0] [2, 2] [⟨"ui", "app", "1"⟩] rfl rfl (by decide +kernel)
      (by decide +kernel) (by decide +kernel)
  · exact missesFile_of_sweeps [] [0, 0, 0] [] rfl rfl (by decide +kernel) (by decide +kernel)
      (by decide +kernel)

end Runs

end ComponentTags.Build
