import ComponentTags.Proofs.Build.Claims
import ComponentTags.Proofs.Build.Outcomes

/-!
Cycle reports. A build counts a cycle when a component needs one that it was claimed on account of,
so whether a cycle among the components is counted depends on who claimed them.
-/

namespace ComponentTags.Build

/-- A component that was resolved needs another one. -/
def ResolvedNeeds (setting : BuildSetting) (start : Cache) (turns : List Turn)
    (first second : ComponentKey) : Prop :=
  ∃ deps, Learned setting start turns first deps ∧
    ∃ dep ∈ deps, childKey setting first dep = second

/-- The component of a visit is known to need itself or one of those that it came up for. -/
def ClosesCycle (setting : BuildSetting) (build : Build) (visit : Visit) : Prop :=
  ∃ deps, build.knowledge.deps[visit.component.key]? = some deps ∧ ∃ dep ∈ deps,
    childKey setting visit.component.key dep ∈ visit.ancestors ++ [visit.component.key]

/-- The runs that count a cycle are those of the visits past the needs of a component that closes
one. -/
def CountsCycles (setting : BuildSetting) (build : Build) (owner : ComponentKey → Option Nat) :
    Prop :=
  ∀ (run : Nat) (report : Report), build.reports[run]? = some report →
    (0 < report.cycles ↔ ∃ (i : Nat) (visit : Visit), build.visits[i]? = some visit ∧
      owner visit.component.key = some i ∧ visit.run = run ∧
      build.knowledge.nodes[visit.component.key]? = some .opened ∧
      ClosesCycle setting build visit)

section Steps

variable {setting : BuildSetting} {build next : Build} {owner owner' : ComponentKey → Option Nat}
  {index i : Nat} {visit other : Visit} {children : List Visit} {stage : Stage}
  {deps : List Dependency} {turns : List Turn} {key : ComponentKey}

theorem cyclesAmong_pos_iff : 0 < cyclesAmong setting visit deps ↔ ∃ dep ∈ deps,
    childKey setting visit.component.key dep ∈ visit.ancestors ++ [visit.component.key] := by
  rw [cyclesAmong, List.length_pos_iff_exists_mem]
  constructor
  · rintro ⟨child, hchild⟩
    obtain ⟨hmem, hcyclic⟩ := List.mem_filter.1 hchild
    obtain ⟨dep, hdep, rfl⟩ := List.mem_map.1 hmem
    rw [List.contains_iff_mem, key_named_child] at hcyclic
    exact ⟨dep, hdep, hcyclic⟩
  · rintro ⟨dep, hdep, hcyclic⟩
    refine ⟨_, List.mem_filter.2 ⟨List.mem_map_of_mem hdep, ?_⟩⟩
    rw [List.contains_iff_mem, key_named_child]
    exact hcyclic

/-- What is known of a component's needs does not change once its node gate is open. -/
theorem Guarded.deps_of_opened (h : Guarded setting build owner)
    (hstep : Advances setting build index visit children stage next)
    (hopened : build.knowledge.nodes[key]? = some .opened) :
    next.knowledge.deps[key]? = build.knowledge.deps[key]? := by
  by_cases heq : key = visit.component.key
  · subst heq
    have hclosed : ∀ {stage' : Stage}, visit.stage = stage' →
        gates? stage' ≠ some (.closed, .closed) := by
      intro stage' hstage hgates
      have hway : IsUnderWay stage' := by
        revert hgates
        cases stage' <;> simp [gates?, IsUnderWay]
      have hnode := ((h.guards hstep.found (h.owner_eq hstep.found hstage hway)).gates_eq hstage
        hgates).1
      cases hopened.symm.trans hnode
    rcases hstep.move.deps_cases with hsame | ⟨deps, -, ⟨hstage, -⟩ | ⟨hstage, -⟩⟩
    · rw [hsame]
    · exact absurd rfl (hclosed hstage)
    · exact absurd rfl (hclosed hstage)
  · exact hstep.move.agreesOff.deps key heq

/-- A step either goes on to what a component needs, and opens its node gate, or counts no cycle. -/
theorem Guarded.cycles_cases (h : Guarded setting build owner)
    (hstep : Advances setting build index visit children stage next) :
    (owner visit.component.key = some index ∧
      build.knowledge.nodes[visit.component.key]? = some .closed ∧
      next.knowledge.nodes[visit.component.key]? = some .opened ∧
      ∃ deps, next.knowledge.deps[visit.component.key]? = some deps ∧
        (dues setting build visit).cycles = cyclesAmong setting visit deps) ∨
    (dues setting build visit).cycles = 0 ∧
      (next.knowledge.nodes[visit.component.key]? = some .opened →
        build.knowledge.nodes[visit.component.key]? = some .opened ∨
          next.knowledge.deps[visit.component.key]? = none) := by
  have hclosed : ∀ {stage' : Stage}, visit.stage = stage' →
      gates? stage' = some (.closed, .closed) → IsUnderWay stage' →
      owner visit.component.key = some index ∧
        build.knowledge.nodes[visit.component.key]? = some .closed := by
    intro stage' hstage hgates hway
    have hown := h.owner_eq hstep.found hstage hway
    exact ⟨hown, ((h.guards hstep.found hown).gates_eq hstage hgates).1⟩
  have hmove := hstep.move
  generalize next.knowledge = knowledge at hmove ⊢
  generalize next.cache = cache at hmove
  cases hmove with
  | hit deps hstage hheld =>
      obtain ⟨hown, hnode⟩ := hclosed hstage rfl trivial
      exact .inl ⟨hown, hnode, by simp, deps, by simp, by simp only [dues, hstage, if_pos hheld]⟩
  | takeEntry payload warnings hstage hresponse hchild =>
      obtain ⟨hown, hnode⟩ := hclosed hstage rfl trivial
      exact .inl ⟨hown, hnode, by simp, payload.deps, by simp,
        by simp [dues, hstage, hresponse, hchild]⟩
  | writeDependency payload cache hstage hcache =>
      obtain ⟨hown, hnode⟩ := hclosed hstage rfl trivial
      have hknows := (h.guards hstep.found hown).knows
      rw [hstage] at hknows
      refine .inl ⟨hown, hnode, by simp, payload.deps, hknows, ?_⟩
      simp only [dues, hstage, Report.add, written]
      split <;> simp [Report.zero]
  | apologize hstage =>
      have hknows := (h.guards hstep.found (h.owner_eq hstep.found hstage trivial)).knows
      rw [hstage] at hknows
      refine .inr ⟨?_, fun _ => .inr hknows⟩
      simp only [dues, hstage]
      split <;> rfl
  | claimKnown deps hstage | claimUnknown hstage =>
      exact .inr ⟨by simp [dues, hstage, Report.zero], fun hopened => by simp at hopened⟩
  | takeDependency payload warnings hstage hresponse hchild =>
      exact .inr ⟨by simp [dues, hstage, hresponse, hchild, Report.zero], .inl⟩
  | joinDependency ids hstage | joinEntry ids payload hstage =>
      exact .inr ⟨by simp [dues, hstage, Report.zero], .inl⟩
  | miss deps hstage hheld => exact .inr ⟨by simp [dues, hstage, hheld, Report.zero], .inl⟩
  | refuse failure hstage hresponse =>
      exact .inr ⟨by simp [dues, hstage, hresponse, Report.zero], .inl⟩
  | wait hstage | release hstage | lack hstage | send hstage | pass payload gathering _ _ hstage
  | gather payload gathering _ _ hstage | writeEntry payload gathering _ hstage =>
      refine .inr ⟨?_, .inl⟩
      simp only [dues, hstage, written]
      repeat' split
      all_goals rfl

theorem ClosesCycle.of_deps (h : ClosesCycle setting build visit)
    (hdeps : next.knowledge.deps[visit.component.key]? =
      build.knowledge.deps[visit.component.key]?) : ClosesCycle setting next visit := by
  obtain ⟨deps, hknown, hcyclic⟩ := h
  exact ⟨deps, by rw [hdeps, hknown], hcyclic⟩

theorem CountsCycles.advance (h : CountsCycles setting build owner)
    (hguarded : Guarded setting build owner) (hguarded' : Guarded setting next owner')
    (haccounts : Accounts setting build visit next)
    (hstep : Advances setting build index visit children stage next)
    (howner : Extends owner owner' visit.component.key index) :
    CountsCycles setting next owner' := by
  intro run report hreport
  rw [haccounts.reports, List.getElem?_modify] at hreport
  obtain ⟨before, hbefore, rfl⟩ := Option.map_eq_some_iff.1 hreport
  have hpos : 0 < (if visit.run = run then before.add (dues setting build visit)
      else before).cycles ↔
        0 < before.cycles ∨ visit.run = run ∧ 0 < (dues setting build visit).cycles := by
    split
    · next hrun =>
        have hsum : (before.add (dues setting build visit)).cycles =
            before.cycles + (dues setting build visit).cycles := rfl
        rw [hsum]
        omega
    · next hrun => simp [hrun]
  rw [hpos, h run before hbefore]
  constructor
  · rintro (⟨i, other, hother, hown, hrun, hopened, hcloses⟩ | ⟨hrun, hdues⟩)
    · obtain ⟨stage', hother'⟩ := hstep.remains hother
      exact ⟨i, _, hother', howner.kept _ _ hown, hrun, hstep.node_opened hopened,
        hcloses.of_deps (hguarded.deps_of_opened hstep hopened)⟩
    · rcases hguarded.cycles_cases hstep with ⟨hown, -, hopened, deps, hdeps, hcycles⟩ | ⟨hzero, -⟩
      · rw [hcycles, cyclesAmong_pos_iff] at hdues
        exact ⟨index, _, hstep.own, howner.kept _ _ hown, hrun, hopened, deps, hdeps, hdues⟩
      · omega
  · rintro ⟨i, other, hother, hown, hrun, hopened, hcloses⟩
    rcases hstep.visit_cases hother with ⟨rfl, rfl⟩ | ⟨hne, hkept⟩ | ⟨-, -, hchild⟩
    · by_cases hwas : build.knowledge.nodes[visit.component.key]? = some .opened
      · refine .inl ⟨i, visit, hstep.found, ?_, hrun, hwas,
          hcloses.of_deps (hguarded.deps_of_opened hstep hwas).symm⟩
        rcases howner.new _ _ hown with hold | ⟨hnone, -, -⟩
        · exact hold
        · cases hwas.symm.trans (hguarded.unmet _ hnone).1
      · obtain ⟨deps, hdeps, hcyclic⟩ := hcloses
        rcases hguarded.cycles_cases hstep with ⟨-, -, -, deps', hdeps', hcycles⟩ | ⟨-, hopens⟩
        · obtain rfl := Option.some.inj (hdeps.symm.trans hdeps')
          rw [hcycles, cyclesAmong_pos_iff]
          exact .inr ⟨hrun, hcyclic⟩
        · rcases hopens hopened with hold | hnone
          · exact absurd hold hwas
          · cases hdeps.symm.trans hnone
    · have hwas := (howner.new _ _ hown).resolve_right fun hnew => hne hnew.2.2
      obtain ⟨-, hnodes, hdeps⟩ := hguarded.frame hstep hwas hne
      exact .inl ⟨i, other, hkept, hwas, hrun, by rw [← hnodes, hopened],
        hcloses.of_deps hdeps.symm⟩
    · exact absurd hown (hguarded'.not_owner hother hchild.stage rfl)

theorem CountsCycles.begin (h : CountsCycles setting build owner)
    (hguarded : Guarded setting build owner) (hcounted : AllCounted build)
    (components : List NamedReference) : CountsCycles setting (build.begin components) owner := by
  have hvisits : ∀ (i : Nat) (visit : Visit), (build.begin components).visits[i]? = some visit →
      owner visit.component.key = some i → build.visits[i]? = some visit := by
    intro i visit hvisit hown
    obtain ⟨found, hfound, -, -⟩ := hguarded.owned _ i hown
    rw [← hvisit, getElem?_begin_of_some components hfound]
    exact hfound
  intro run report hreport
  rw [Build.begin, List.getElem?_append] at hreport
  split at hreport
  · rw [h run report hreport]
    constructor
    · rintro ⟨i, visit, hvisit, hrest⟩
      exact ⟨i, visit, getElem?_begin_of_some components hvisit, hrest⟩
    · rintro ⟨i, visit, hvisit, hown, hrest⟩
      exact ⟨i, visit, hvisits i visit hvisit hown, hown, hrest⟩
  · next hlast =>
      have hzero : report.cycles = 0 := by
        rw [List.getElem?_singleton] at hreport
        split at hreport
        · obtain rfl := Option.some.inj hreport
          rfl
        · cases hreport
      rw [hzero]
      refine ⟨fun hpos => absurd hpos (Nat.lt_irrefl 0), ?_⟩
      rintro ⟨i, visit, hvisit, hown, rfl, -⟩
      have hrun := hcounted i visit (hvisits i visit hvisit hown)
      rw [writeErrors, List.length_map] at hrun
      exact absurd hrun hlast

end Steps

section Runs

variable {setting : BuildSetting} {build : Build} {turns : List Turn} {cache : Cache} {disk : Disk}
  {call : Call} {first second last : ComponentKey}

theorem Run.countsCycles (hproper : setting.workshop.naming.IsProper)
    (hrun : Run setting (Build.start cache disk) turns build) :
    ∃ owner, Tracked setting cache turns build owner ∧ CountsCycles setting build owner := by
  refine hrun.invariant (motive := fun _ => CountsCycles setting) hproper ?_ ?_ ?_
  · intro run report hreport
    simp [Build.start] at hreport
  · intro turns build owner references htracked hcounts
    exact hcounts.begin htracked.sound.guarded htracked.sound.counted _
  · intro turns build owner index visit children stage next owner' htracked hpassage hcounts
    exact hcounts.advance htracked.sound.guarded hpassage.guarded
      (accounts_step hpassage.advances.found hpassage.taken) hpassage.advances hpassage.owners

/-- What was claimed on account of a component is needed by it. -/
theorem Tracked.needs_of_below {owner : ComponentKey → Option Nat}
    (h : Tracked setting cache turns build owner) (hbelow : ClaimedBelow turns first second) :
    ResolvedNeeds setting cache turns first second := by
  obtain ⟨turn, hturn, visit, hclaims, rfl, hlast⟩ := hbelow
  obtain ⟨-, stage, hvisit⟩ := h.claimed.owns turn hturn visit hclaims
  cases h.claimed.descends _ _ hvisit with
  | asked hancestors =>
      rw [show visit.ancestors = [] from hancestors] at hlast
      cases hlast
  | @needed i parent deps dep hparent hown hancestors hdeps hdep hkey =>
      rw [show visit.ancestors = _ from hancestors, List.getLast?_concat] at hlast
      obtain rfl := Option.some.inj hlast
      exact ⟨deps, h.sound.taught.known _ deps hdeps, dep, hdep, hkey.symm⟩

/-- The run of a call, from the cache and the disk that it starts with. -/
theorem Call.run_start (hrun : Run call.setting call.opening turns build) :
    Run call.setting (Build.start call.cache call.disk) turns build := by
  have hopening : Run call.setting (Build.start call.cache call.disk) [] call.opening :=
    Run.start.begin call.references
  simpa using hopening.trans hrun

/-- A call that is carried out alone, to its end. -/
structure Call.Completes (call : Call) (turns : List Turn) (build : Build) (report : Report) :
    Prop where
  run : Run call.setting call.opening turns build
  isFinished : build.isFinished = true
  reports : build.reports = [report]

/--
**Which cycles a call counts.** It counts one exactly if a component needs itself or one that it was
claimed on account of, under the order of turns that was taken; then some component needs itself in
the end.
-/
theorem counts_cycle_iff {dialect : Dialect} {directory : Path} {renderer start : String}
    (hworkshop : call.setting.workshop = .of dialect directory renderer start) {report : Report}
    (hcompletes : call.Completes turns build report) :
    (0 < report.cycles ↔ ∃ first last,
      Relation.ReflTransGen (ClaimedBelow turns) first last ∧
        ResolvedNeeds call.setting call.cache turns last first) ∧
    (0 < report.cycles → ∃ key,
      Relation.TransGen (ResolvedNeeds call.setting call.cache turns) key key) := by
  have hproper : call.setting.workshop.naming.IsProper := by
    rw [hworkshop]
    exact Naming.isProper_of _ dialect start
  obtain ⟨owner, htracked, hcounts⟩ := (Call.run_start hcompletes.run).countsCycles hproper
  have hcycles := hcounts 0 report (by rw [hcompletes.reports]; rfl)
  have hexact : 0 < report.cycles ↔ ∃ first last,
      Relation.ReflTransGen (ClaimedBelow turns) first last ∧
        ResolvedNeeds call.setting call.cache turns last first := by
    rw [hcycles]
    constructor
    · rintro ⟨i, visit, hvisit, hown, -, -, deps, hdeps, dep, hdep, hmem⟩
      exact ⟨_, _, (htracked.claimed.mem_lineage_iff hvisit hown).1 hmem, deps,
        htracked.sound.taught.known _ deps hdeps, dep, hdep, rfl⟩
    · rintro ⟨first, last, hreach, deps, hlearned, dep, hdep, rfl⟩
      have hdeps := htracked.sound.taught.learned last deps hlearned
      obtain ⟨i, visit, hvisit, rfl, hown⟩ := htracked.sound.guarded.exists_owner hdeps
      have hdone : visit.stage = .done := by
        have hover := List.all_eq_true.1 hcompletes.isFinished visit (List.mem_of_getElem? hvisit)
        simpa using hover
      have hrun : visit.run = 0 := by
        have hlt := htracked.sound.counted i visit hvisit
        rw [writeErrors, hcompletes.reports, List.map_singleton, List.length_singleton] at hlt
        omega
      exact ⟨i, visit, hvisit, hown, hrun,
        ((htracked.sound.guarded.guards hvisit hown).gates_eq hdone rfl).1, deps, hdeps, dep, hdep,
        (htracked.claimed.mem_lineage_iff hvisit hown).2 hreach⟩
  refine ⟨hexact, fun hpos => ?_⟩
  obtain ⟨first, last, hreach, hneeds⟩ := hexact.1 hpos
  have hreach' := Relation.ReflTransGen.mono (fun _ _ => htracked.needs_of_below) _ _ hreach
  exact ⟨first, .tail' hreach' hneeds⟩

/-- A call is carried out to its end once its visits took turns until all were over. -/
theorem Call.completes_after {call : Call} {indices : List Nat} {last : Build} {disk : Disk}
    {report : Report} (hafter : call.after indices = last.withDisk disk)
    (hfinished : last.isFinished = true) (hreports : last.reports = [report]) :
    ∃ turns, call.Completes turns (call.after indices) report := by
  obtain ⟨turns, hrun⟩ := (Run.start : Run call.setting call.opening [] _).exists_sweep indices
  exact ⟨turns, hrun, by rw [hafter]; exact hfinished, by rw [hafter]; exact hreports⟩

/-! ### A ring of two components -/

/-- A setting in which the components `a` and `b` need each other. -/
def ringSetting : BuildSetting :=
  { menuSetting with
    endpoint := fun request =>
      some (.ok ({ runtime := "function () \x7b\x7d"
                   deps := [⟨if request.reference.space = "a" then "b" else "a", "1"⟩] }, [])) }

/-- A call for some components of the ring. -/
def ringCall (references : List Reference) : Call :=
  { setting := ringSetting, cache := .inMemory, disk := .empty, references }

/-- A build of the call in which the visits take turns, one after the other. -/
def ringBuild (references : List Reference) : Build :=
  (ringCall references).opening.sweep ringSetting
    ((List.range 12).flatMap fun _ => List.range 4)

theorem isReady_ringSetting : IsReady ringSetting [] .empty :=
  isReady_menuSetting.congr rfl

set_option maxRecDepth 100000 in
/-- One component of the ring is asked for, and both are fetched. -/
theorem completes_ring :
    ∃ turns, (ringCall [⟨"ui", "a", "1"⟩]).Completes turns (ringBuild [⟨"ui", "a", "1"⟩])
      { Report.zero with fetched := 2, cycles := 1 } := by
  have hstrides : (strides? ringSetting [] (ringCall [⟨"ui", "a", "1"⟩]).opening
      ((List.range 12).flatMap fun _ => List.range 4)).any (fun last => last.isFinished = true ∧
        last.reports = [{ Report.zero with fetched := 2, cycles := 1 }]) = true := by
    decide +kernel
  obtain ⟨last, disk, hlast, hbuild⟩ := (ringCall _).exists_after isReady_ringSetting hstrides
  obtain ⟨hfinished, hreports⟩ := of_decide_eq_true hlast
  exact Call.completes_after hbuild hfinished hreports

theorem counts_cycle_iff_of_ring :
    ∃ turns build report, (ringCall [⟨"ui", "a", "1"⟩]).Completes turns build report ∧
      report.cycles = 1 ∧
      (0 < report.cycles ↔ ∃ first last,
        Relation.ReflTransGen (ClaimedBelow turns) first last ∧
          ResolvedNeeds ringSetting .inMemory turns last first) ∧
      (0 < report.cycles → ∃ key,
        Relation.TransGen (ResolvedNeeds ringSetting .inMemory turns) key key) := by
  obtain ⟨turns, hcompletes⟩ := completes_ring
  exact ⟨turns, _, _, hcompletes, rfl, counts_cycle_iff rfl hcompletes⟩

/-! ### A ring below a page -/

/-- A setting in which a page needs both components of the ring. -/
def pageSetting : BuildSetting :=
  { ringSetting with
    endpoint := fun request =>
      if request.reference.space = "page" then
        some (.ok ({ runtime := "function () \x7b\x7d", deps := [⟨"a", "1"⟩, ⟨"b", "1"⟩] }, []))
      else ringSetting.endpoint request }

/-- A call for the page. -/
def pageCall : Call :=
  { setting := pageSetting, cache := .inMemory, disk := .empty
    references := [⟨"ui", "page", "1"⟩] }

set_option maxRecDepth 100000 in
/-- The page is asked for, each component of the ring is claimed on its account, and no cycle is
counted. -/
theorem ring_below_page_not_counted :
    ∃ turns build report, pageCall.Completes turns build report ∧
      report.cycles = 0 ∧ report.failed = 0 ∧ report.writeErrors = 0 ∧
      ∃ key, ResolvedNeeds pageSetting .inMemory turns
          (pageSetting.workshop.naming.key ⟨"ui", "page", "1"⟩) key ∧
        Relation.TransGen (ResolvedNeeds pageSetting .inMemory turns) key key := by
  let page := pageSetting.workshop.naming.key ⟨"ui", "page", "1"⟩
  let first := pageSetting.workshop.naming.key ⟨"ui", "a", "1"⟩
  let second := pageSetting.workshop.naming.key ⟨"ui", "b", "1"⟩
  have hstrides : (strides? pageSetting [] pageCall.opening
      ((List.range 14).flatMap fun _ => List.range 5)).any (fun last => last.isFinished = true ∧
        last.reports = [{ Report.zero with fetched := 3 }] ∧
        last.knowledge.deps[page]? = some [⟨"a", "1"⟩, ⟨"b", "1"⟩] ∧
        last.knowledge.deps[first]? = some [⟨"b", "1"⟩] ∧
        last.knowledge.deps[second]? = some [⟨"a", "1"⟩]) = true := by
    decide +kernel
  have hready : IsReady pageSetting [] .empty := isReady_ringSetting.congr rfl
  obtain ⟨last, disk, hlast, hafter⟩ := pageCall.exists_after hready hstrides
  obtain ⟨hfinished, hreports, hpage, hfirst, hsecond⟩ := of_decide_eq_true hlast
  obtain ⟨turns, hcompletes⟩ := Call.completes_after hafter hfinished hreports
  rw [hafter] at hcompletes
  obtain ⟨owner, htracked⟩ :=
    (Call.run_start hcompletes.run).tracked (Naming.isProper_of _ .jsx "c")
  have hdown : ResolvedNeeds pageSetting .inMemory turns page first :=
    ⟨_, htracked.sound.taught.known _ _ hpage, _, List.mem_cons_self, rfl⟩
  have hforth : ResolvedNeeds pageSetting .inMemory turns first second :=
    ⟨_, htracked.sound.taught.known _ _ hfirst, _, List.mem_singleton_self _, rfl⟩
  have hback : ResolvedNeeds pageSetting .inMemory turns second first :=
    ⟨_, htracked.sound.taught.known _ _ hsecond, _, List.mem_singleton_self _, rfl⟩
  exact ⟨turns, _, _, hcompletes, rfl, rfl, rfl, first, hdown, .tail (.single hforth) hback⟩

end Runs

end ComponentTags.Build
