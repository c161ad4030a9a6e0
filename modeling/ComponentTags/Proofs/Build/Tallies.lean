import ComponentTags.Proofs.Build.Delivery

/-!
Tallies. A build counts each component at most once as fetched or as found in the cache, when the visit
that claimed it settles it, and one that is settled but not counted so is a loss to the run of the visit.
-/

namespace ComponentTags

namespace Report

/-- How many components were provided: fetched, or found in the cache. -/
def provided (report : Report) : Nat :=
  report.fetched + report.cacheHits

/-- How many components could not be had, and how many modules could not be written. -/
def losses (report : Report) : Nat :=
  report.failed + report.writeErrors

@[simp]
theorem provided_add (first second : Report) :
    (first.add second).provided = first.provided + second.provided := by
  simp [provided, add]
  omega

@[simp]
theorem losses_add (first second : Report) :
    (first.add second).losses = first.losses + second.losses := by
  simp [losses, add]
  omega

end Report

namespace Build

/-- The component that is counted in the turn as fetched or as found. -/
def Turn.provides? (setting : BuildSetting) (turn : Turn) : Option ComponentKey :=
  turn.visit?.bind fun visit =>
    if 0 < (dues setting turn.before visit).provided then some visit.component.key else none

/-- The components that are counted as fetched or as found, the last one first. -/
def provided (setting : BuildSetting) (turns : List Turn) : List ComponentKey :=
  turns.filterMap (Turn.provides? setting)

/-- The run counts a component that could not be had, or a module that could not be written. -/
def CountsLoss (build : Build) (run : Nat) : Prop :=
  ∃ report, build.reports[run]? = some report ∧ 0 < report.losses

/-- What a build has counted as provided, and how that goes with the visits that claimed their
components. -/
structure Tallied (setting : BuildSetting) (turns : List Turn) (build : Build)
    (owner : ComponentKey → Option Nat) : Prop where
  total : (build.reports.map Report.provided).sum = (provided setting turns).length
  once : (provided setting turns).Nodup
  settled : ∀ key ∈ provided setting turns, ∃ (i : Nat) (visit : Visit),
    build.visits[i]? = some visit ∧ visit.component.key = key ∧ owner key = some i ∧
      isSettled visit.stage = true
  known : ∀ key ∈ provided setting turns, ∃ deps, build.knowledge.deps[key]? = some deps
  counted : ∀ (i : Nat) (visit : Visit), build.visits[i]? = some visit →
    owner visit.component.key = some i → isSettled visit.stage = true →
      visit.component.key ∈ provided setting turns ∨ CountsLoss build visit.run
  failing : ∀ (i : Nat) (visit : Visit), build.visits[i]? = some visit →
    visit.stage = .failing → CountsLoss build visit.run

section Steps

variable {setting : BuildSetting} {build next : Build} {owner owner' : ComponentKey → Option Nat}
  {index i : Nat} {visit other : Visit} {children : List Visit} {stage : Stage}
  {turns : List Turn} {run : Nat}

theorem provided_written (ok : Bool) (cycles : Nat) :
    ((written ok).add { Report.zero with cycles }).provided = (if ok then 1 else 0) ∧
      ((written ok).add { Report.zero with cycles }).losses = (if ok then 0 else 1) := by
  cases ok <;> exact ⟨rfl, rfl⟩

/-- A step that settles the component of its visit provides it, or is a loss to its run, unless that
was one before; no other step provides anything. -/
theorem Guarded.provision_cases (h : Guarded setting build owner)
    (hstep : Advances setting build index visit children stage next) :
    (owner visit.component.key = some index ∧ isSettled visit.stage = false ∧
      isSettled stage = true ∧ (dues setting build visit).provided = 1 ∧
        ∃ deps, next.knowledge.deps[visit.component.key]? = some deps) ∨
    (dues setting build visit).provided = 0 ∧
      (stage = .failing → 0 < (dues setting build visit).losses) ∧
      (owner visit.component.key = some index → isSettled stage = true →
        isSettled visit.stage = true ∨ visit.stage = .failing ∨
          0 < (dues setting build visit).losses) := by
  have hway : ∀ {stage'}, visit.stage = stage' → IsUnderWay stage' →
      owner visit.component.key = some index := h.owner_eq hstep.found
  have hmove := hstep.move
  generalize next.knowledge = knowledge at hmove ⊢
  generalize next.cache = cache at hmove
  cases hmove with
  | hit deps hstage hheld =>
      refine .inl ⟨hway hstage trivial, by rw [hstage]; rfl, rfl, ?_, deps, ?_⟩
      · rw [dues, hstage]
        simp only [hheld, if_true]
        rfl
      · rw [deps_openNode, deps_learn]
  | writeDependency payload cache hstage hwritten =>
      have hown := hway hstage trivial
      have hknows := (h.guards hstep.found hown).knows
      rw [hstage] at hknows
      obtain ⟨hprovided, hlosses⟩ := provided_written (manages setting build visit)
        (cyclesAmong setting visit payload.deps)
      have hdues : dues setting build visit = (written (manages setting build visit)).add
          { Report.zero with cycles := cyclesAmong setting visit payload.deps } := by
        rw [dues, hstage]
      rw [hdues, hprovided, hlosses]
      cases manages setting build visit with
      | true => exact .inl ⟨hown, by rw [hstage]; rfl, rfl, rfl, payload.deps, hknows⟩
      | false => exact .inr ⟨rfl, by simp, fun _ _ => .inr (.inr Nat.one_pos)⟩
  | writeEntry payload gathering cache hstage hpending hwritten =>
      have hown := hway hstage trivial
      have hknows := (h.guards hstep.found hown).knows
      rw [hstage] at hknows
      have hdues : dues setting build visit = written (manages setting build visit) := by
        rw [dues, hstage]
        exact if_pos hpending
      rw [hdues]
      cases manages setting build visit with
      | true => exact .inl ⟨hown, by rw [hstage]; rfl, rfl, rfl, payload.deps, hknows⟩
      | false => exact .inr ⟨rfl, by simp, fun _ _ => .inr (.inr Nat.one_pos)⟩
  | release hstage hgate =>
      refine .inr ⟨by rw [dues, hstage]; rfl, by simp, fun hown => ?_⟩
      exact absurd hown (h.not_owner hstep.found hstage rfl)
  | apologize hstage =>
      refine .inr ⟨?_, by simp, fun _ _ => .inr (.inl hstage)⟩
      rw [dues, hstage]
      dsimp only
      split <;> rfl
  | joinDependency ids hstage hdone =>
      exact .inr ⟨by rw [dues, hstage]; rfl, by simp, fun _ _ => .inl (by rw [hstage]; rfl)⟩
  | lack hstage hrule =>
      have hdues : dues setting build visit = { Report.zero with failed := 1 } := by
        rw [dues, hstage]
        exact if_pos hrule
      rw [hdues]
      exact .inr ⟨rfl, fun _ => Nat.one_pos, by simp [isSettled]⟩
  | refuse failure hstage hresponse =>
      have hdues : dues setting build visit = { Report.zero with failed := 1 } := by
        rw [dues, hstage]
        simp only [hresponse]
      rw [hdues]
      exact .inr ⟨rfl, fun _ => Nat.one_pos, by simp [isSettled]⟩
  | miss deps hstage hheld =>
      refine .inr ⟨?_, by simp, by simp [isSettled]⟩
      rw [dues, hstage]
      simp only [hheld]
      rfl
  | send hstage hrule =>
      refine .inr ⟨?_, by simp, by simp [isSettled]⟩
      rw [dues, hstage]
      simp only [hrule, if_false]
      rfl
  | takeDependency payload warnings hstage hresponse hchild =>
      refine .inr ⟨?_, by simp, by simp [isSettled]⟩
      rw [dues, hstage]
      simp only [hresponse, hchild, if_true]
      rfl
  | takeEntry payload warnings hstage hresponse hchild =>
      refine .inr ⟨?_, by simp [joiningStage], by simp [joiningStage, isSettled]⟩
      rw [dues, hstage]
      simp only [hresponse, hchild]
      rfl
  | pass payload gathering reference pending hstage hpending hseen =>
      refine .inr ⟨?_, by simp, by simp [isSettled]⟩
      rw [dues, hstage]
      simp only [hpending]
      rfl
  | gather payload gathering reference pending hstage hpending hseen hgate =>
      refine .inr ⟨?_, by simp, by simp [isSettled]⟩
      rw [dues, hstage]
      simp only [hpending]
      rfl
  | wait hstage hkey | claimKnown deps hstage hkey hcache | claimUnknown hstage hkey
  | joinEntry ids payload hstage hdone =>
      exact .inr ⟨by rw [dues, hstage]; rfl, by simp, by simp [isSettled]⟩

/-! ### Losses and counts over a step -/

theorem CountsLoss.advance (h : CountsLoss build run) (haccounts : Accounts setting build visit next) :
    CountsLoss next run := by
  obtain ⟨report, hreport, hpos⟩ := h
  rw [CountsLoss, haccounts.reports]
  simp only [List.getElem?_modify, hreport]
  refine ⟨_, rfl, ?_⟩
  dsimp only
  split
  · rw [Report.losses_add]
    omega
  · exact hpos

theorem CountsLoss.of_dues (haccounts : Accounts setting build visit next)
    (hcounted : visit.run < build.writeErrors.length)
    (hpos : 0 < (dues setting build visit).losses) : CountsLoss next visit.run := by
  rw [writeErrors, List.length_map] at hcounted
  refine ⟨build.reports[visit.run].add (dues setting build visit), ?_, ?_⟩
  · rw [haccounts.reports, List.getElem?_modify, List.getElem?_eq_getElem hcounted]
    simp
  · rw [Report.losses_add]
    omega

theorem Accounts.sum_provided (haccounts : Accounts setting build visit next)
    (hcounted : visit.run < build.writeErrors.length) :
    (next.reports.map Report.provided).sum =
      (build.reports.map Report.provided).sum + (dues setting build visit).provided := by
  rw [writeErrors, List.length_map] at hcounted
  have hsum := Range.sum_modify Report.provided (·.add (dues setting build visit))
    (List.getElem?_eq_getElem hcounted)
  rw [← haccounts.reports, Report.provided_add] at hsum
  omega

theorem provided_cons (hfound : build.visits[index]? = some visit) :
    provided setting (⟨build, index⟩ :: turns) =
      (if 0 < (dues setting build visit).provided then [visit.component.key] else []) ++
        provided setting turns := by
  have hprovides : Turn.provides? setting ⟨build, index⟩ =
      if 0 < (dues setting build visit).provided then some visit.component.key else none := by
    rw [Turn.provides?, Turn.visit?, hfound]
    rfl
  rw [provided, List.filterMap_cons, hprovides]
  by_cases hpos : 0 < (dues setting build visit).provided <;> simp [hpos, provided]

theorem Move.isSettled_of_arriving {knowledge : Knowledge} {cache : Cache}
    (h : Move setting build visit knowledge cache children stage)
    (hstage : visit.stage = .arriving) : isSettled stage = false := by
  cases h <;> simp_all [isSettled]

/-- A component that is settled stays so. -/
theorem Move.settled {knowledge : Knowledge} {cache : Cache}
    (h : Move setting build visit knowledge cache children stage)
    (hsettled : isSettled visit.stage = true) : isSettled stage = true := by
  cases h with
  | joinDependency ids hstage hdone => rfl
  | _ => simp_all [isSettled]

/-- What was provided before a step is settled and known after it. -/
theorem Tallied.kept (h : Tallied setting turns build owner)
    (hguarded : Guarded setting build owner)
    (hstep : Advances setting build index visit children stage next)
    (howner : Extends owner owner' visit.component.key index) :
    ∀ key ∈ provided setting turns, (∃ (i : Nat) (visit : Visit), next.visits[i]? = some visit ∧
        visit.component.key = key ∧ owner' key = some i ∧ isSettled visit.stage = true) ∧
      ∃ deps, next.knowledge.deps[key]? = some deps := by
  intro key hkey
  obtain ⟨deps, hdeps⟩ := h.known key hkey
  obtain ⟨i, other, hother, rfl, hown, hpast⟩ := h.settled key hkey
  refine ⟨?_, deps, hguarded.deps_kept hstep hdeps⟩
  by_cases hindex : i = index
  · subst hindex
    obtain rfl := Option.some.inj (hstep.found.symm.trans hother)
    exact ⟨i, _, hstep.own, rfl, howner.kept _ _ hown, hstep.move.settled hpast⟩
  · exact ⟨i, other, hstep.keeps hindex hother, rfl, howner.kept _ _ hown, hpast⟩

/-- A visit that is about to settle its component has not been counted. -/
theorem Tallied.notMem (h : Tallied setting turns build owner)
    (hfound : build.visits[index]? = some visit) (hown : owner visit.component.key = some index)
    (hsettled : isSettled visit.stage = false) :
    visit.component.key ∉ provided setting turns := by
  intro hmem
  obtain ⟨i, other, hother, hkey, hown', hpast⟩ := h.settled _ hmem
  obtain rfl := Option.some.inj (hown.symm.trans hown')
  obtain rfl := Option.some.inj (hfound.symm.trans hother)
  cases hsettled.symm.trans hpast

/-- The visit that settles its component in a step is counted, or its run counts a loss. -/
theorem Tallied.counted_own (h : Tallied setting turns build owner)
    (hguarded : Guarded setting build owner) (hcounted : AllCounted build)
    (haccounts : Accounts setting build visit next)
    (hstep : Advances setting build index visit children stage next)
    (howner : Extends owner owner' visit.component.key index)
    (hown : owner' visit.component.key = some index) (hsettled : isSettled stage = true) :
    visit.component.key ∈ provided setting (⟨build, index⟩ :: turns) ∨
      CountsLoss next visit.run := by
  have harriving : visit.stage ≠ .arriving := by
    intro hstage
    cases hsettled.symm.trans (hstep.move.isSettled_of_arriving hstage)
  have hwas := hguarded.owner_before hstep.found howner harriving hown
  rw [provided_cons hstep.found]
  rcases hguarded.provision_cases hstep with ⟨-, -, -, hone, -⟩ | ⟨-, -, hloses⟩
  · exact .inl (List.mem_append_left _ (by rw [hone]; exact List.mem_singleton_self _))
  · rcases hloses hwas hsettled with hpast | hfailing | hloss
    · exact (h.counted index visit hstep.found hwas hpast).imp (List.mem_append_right _)
        (CountsLoss.advance · haccounts)
    · exact .inr ((h.failing index visit hstep.found hfailing).advance haccounts)
    · exact .inr (.of_dues haccounts (hcounted index visit hstep.found) hloss)

theorem Tallied.advance (h : Tallied setting turns build owner)
    (hguarded : Guarded setting build owner) (hcounted : AllCounted build)
    (haccounts : Accounts setting build visit next)
    (hstep : Advances setting build index visit children stage next)
    (howner : Extends owner owner' visit.component.key index) :
    Tallied setting (⟨build, index⟩ :: turns) next owner' := by
  have hrun := hcounted index visit hstep.found
  have hcons : provided setting (⟨build, index⟩ :: turns) = _ := provided_cons hstep.found
  have hsum := haccounts.sum_provided hrun
  have hkept := h.kept hguarded hstep howner
  have hlosses : ∀ (i : Nat) (other : Visit), next.visits[i]? = some other →
      (owner' other.component.key = some i → isSettled other.stage = true →
        other.component.key ∈ provided setting (⟨build, index⟩ :: turns) ∨
          CountsLoss next other.run) ∧
      (other.stage = .failing → CountsLoss next other.run) := by
    intro i other hother
    rcases hstep.visit_cases hother with ⟨rfl, rfl⟩ | ⟨hne, hbefore⟩ | ⟨-, -, hchild⟩
    · have hsettles := h.counted_own hguarded hcounted haccounts hstep howner
      refine ⟨hsettles, fun hfailing => ?_⟩
      obtain rfl : stage = .failing := hfailing
      rcases hguarded.provision_cases hstep with ⟨-, -, hsettled, -⟩ | ⟨-, hloses, -⟩
      · cases hsettled
      · have hloss := CountsLoss.of_dues haccounts hrun (hloses rfl)
        exact hloss
    · refine ⟨fun hown hsettled => ?_, fun hfailing =>
        (h.failing i other hbefore hfailing).advance haccounts⟩
      have hwas := (howner.new _ _ hown).resolve_right fun hnew => hne hnew.2.2
      rw [hcons]
      exact (h.counted i other hbefore hwas hsettled).imp (List.mem_append_right _)
        (CountsLoss.advance · haccounts)
    · rw [hchild.stage]
      exact ⟨nofun, nofun⟩
  rcases hguarded.provision_cases hstep with ⟨hown, hbefore, hafter, hone, hdeps⟩ | ⟨hzero, -, -⟩
  · have hmore : provided setting (⟨build, index⟩ :: turns) =
        visit.component.key :: provided setting turns := by
      rw [hcons, hone]
      rfl
    have hnew : ∃ (i : Nat) (other : Visit), next.visits[i]? = some other ∧
        other.component.key = visit.component.key ∧ owner' visit.component.key = some i ∧
          isSettled other.stage = true :=
      ⟨index, _, hstep.own, rfl, howner.kept _ _ hown, hafter⟩
    refine ⟨?_, ?_, ?_, ?_, fun i other hother => (hlosses i other hother).1,
      fun i other hother => (hlosses i other hother).2⟩
    · rw [hsum, hone, hmore, h.total, List.length_cons]
    · rw [hmore]
      exact List.nodup_cons.2 ⟨h.notMem hstep.found hown hbefore, h.once⟩
    · rw [hmore]
      exact List.forall_mem_cons.2 ⟨hnew, fun key hkey => (hkept key hkey).1⟩
    · rw [hmore]
      exact List.forall_mem_cons.2 ⟨hdeps, fun key hkey => (hkept key hkey).2⟩
  · have hsame : provided setting (⟨build, index⟩ :: turns) = provided setting turns := by
      rw [hcons, hzero]
      rfl
    refine ⟨?_, ?_, ?_, ?_, fun i other hother => (hlosses i other hother).1,
      fun i other hother => (hlosses i other hother).2⟩
    · rw [hsum, hzero, hsame, h.total, Nat.add_zero]
    · rw [hsame]
      exact h.once
    · rw [hsame]
      exact fun key hkey => (hkept key hkey).1
    · rw [hsame]
      exact fun key hkey => (hkept key hkey).2

theorem CountsLoss.begin (h : CountsLoss build run) (components : List NamedReference) :
    CountsLoss (build.begin components) run := by
  obtain ⟨report, hreport, hpos⟩ := h
  refine ⟨report, ?_, hpos⟩
  have hlt := (List.getElem?_eq_some_iff.1 hreport).1
  rw [Build.begin, ← hreport]
  exact List.getElem?_append_left hlt

theorem Tallied.begin (h : Tallied setting turns build owner) (components : List NamedReference) :
    Tallied setting turns (build.begin components) owner where
  total := by simp [Build.begin, h.total, Report.provided, Report.zero]
  once := h.once
  settled key hkey := by
    obtain ⟨i, visit, hvisit, hrest⟩ := h.settled key hkey
    exact ⟨i, visit, getElem?_begin_of_some components hvisit, hrest⟩
  known := h.known
  counted i visit hvisit hown hsettled := by
    rcases getElem?_begin hvisit with hold | ⟨harriving, -, -⟩
    · exact (h.counted i visit hold hown hsettled).imp_right (CountsLoss.begin · components)
    · rw [harriving] at hsettled
      cases hsettled
  failing i visit hvisit hfailing := by
    rcases getElem?_begin hvisit with hold | ⟨harriving, -, -⟩
    · exact (h.failing i visit hold hfailing).begin components
    · cases harriving.symm.trans hfailing

end Steps

section Runs

variable {setting : BuildSetting} {build : Build} {turns : List Turn} {cache : Cache} {disk : Disk}

theorem Run.tallied (hproper : setting.workshop.naming.IsProper)
    (hrun : Run setting (Build.start cache disk) turns build) :
    ∃ owner, Tracked setting cache turns build owner ∧ Tallied setting turns build owner := by
  refine hrun.invariant (motive := Tallied setting) hproper ?_ ?_ ?_
  · exact ⟨rfl, List.nodup_nil, (fun _ hkey => nomatch hkey), (fun _ hkey => nomatch hkey),
      (fun i visit hvisit => by simp [Build.start] at hvisit),
      (fun i visit hvisit => by simp [Build.start] at hvisit)⟩
  · intro turns build owner references htracked htallied
    exact htallied.begin _
  · intro turns build owner index visit children stage next owner' htracked hpassage htallied
    exact htallied.advance htracked.sound.guarded htracked.sound.counted
      (accounts_step hpassage.advances.found hpassage.taken) hpassage.advances hpassage.owners

/--
**Nothing is counted twice, and nothing is left out.** When a build is over, what it counts as fetched
or found are components that were met, each once; if no run counts a loss, they are all of these.
-/
theorem Tallied.mem_provided_iff {owner : ComponentKey → Option Nat}
    (h : Tallied setting turns build owner) (hguarded : Guarded setting build owner)
    (hfinished : build.isFinished = true) (hlosses : ∀ report ∈ build.reports, report.losses = 0)
    {key : ComponentKey} : key ∈ provided setting turns ↔ (owner key).isSome := by
  constructor
  · intro hkey
    obtain ⟨i, visit, -, rfl, hown, -⟩ := h.settled key hkey
    rw [hown]
    rfl
  · intro hmet
    obtain ⟨i, visit, hvisit, rfl, hown, hdone, -⟩ :=
      hguarded.opened_of_isFinished hfinished hmet
    rcases h.counted i visit hvisit hown (by rw [hdone]; rfl) with hmem | ⟨report, hreport, hpos⟩
    · exact hmem
    · exact absurd (hlosses report (List.mem_of_getElem? hreport)) (Nat.pos_iff_ne_zero.1 hpos)

end Runs

end Build

end ComponentTags
