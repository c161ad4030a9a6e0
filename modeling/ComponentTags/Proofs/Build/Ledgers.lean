import ComponentTags.Proofs.Build.Fates

/-!
Ledgers. Each component that comes up is settled once: it was found, its module was written, or it could
not be. What stands on the disk and in the cache and what is counted follows from which components are
settled, whatever order they were settled in.
-/

namespace ComponentTags.Build

/-- Whether a component is settled when the visit that closed its gates is at a stage. -/
def isSettled : Stage → Bool
  | .joining _ none | .done => true
  | _ => false

/-- Whether the step of a visit at that stage may write a module. -/
def speaks : Stage → Bool
  | .failing | .writing _ | .gathering _ _ => true
  | _ => false

theorem deed?_eq_none_of_stage {setting : BuildSetting} {visit : Visit} {stage : Stage}
    (hstage : visit.stage = stage) (hmute : speaks stage = false) : visit.deed? setting = none := by
  subst hstage
  cases hstage : visit.stage <;> simp_all [Visit.deed?, speaks]

/-- Whether a visit gave its component up. -/
def GaveUp (call : Call) (visit : Visit) : Prop :=
  visit.stage = .failing ∨ visit.stage = .done ∧ call.fate visit.component.reference = .lost

namespace Call

variable (call : Call)

/-- What writing the module of a component makes of a disk, and whether it can be written. -/
noncomputable def change (reference : Reference) (disk : Disk) : Disk × Bool :=
  Deed.change call.setting.workshop (call.deed? reference) disk

/-- Whether the module of a component can be written. -/
noncomputable def manages (reference : Reference) : Bool :=
  (call.change reference call.disk).2

/-- The disk when some components are settled, the last one first. -/
noncomputable def diskAfter (settled : List Reference) : Disk :=
  Disk.applyAll call.change settled call.disk

/-- What the cache says of a component as it is met. -/
def kept (reference : Reference) : CacheEntry :=
  (call.cache.get? (call.naming.key reference)).getD .unknown

/-- What the cache says of a component that is settled. -/
noncomputable def entry (reference : Reference) : CacheEntry :=
  match call.fate reference with
  | .served payload =>
      if call.manages reference then { success := true, deps := payload.deps }
      else call.kept reference
  | _ => call.kept reference

/-- What a component is counted as when it is settled. -/
noncomputable def dues (reference : Reference) : Report :=
  match call.fate reference with
  | .found _ => { Report.zero with cacheHits := 1 }
  | .served _ => written (call.manages reference)
  | .lost => if call.manages reference then .zero else { Report.zero with writeErrors := 1 }

noncomputable def tally (settled : List Reference) : Report :=
  settled.foldr (fun reference report => (call.dues reference).add report) .zero

end Call

/-- The components, each once, whose visits got that far. -/
structure Passed (build : Build) (owner : ComponentKey → Option Nat) (past : Visit → Prop)
    (references : List Reference) : Prop where
  once : references.Nodup
  mem_iff : ∀ reference, reference ∈ references ↔ ∃ i visit, build.visits[i]? = some visit ∧
    owner visit.component.key = some i ∧ visit.component.reference = reference ∧ past visit

/-- How a build stands when some components are settled and some were given up. -/
structure Ledger (call : Call) (build : Build) (owner : ComponentKey → Option Nat)
    (settled lost : List Reference) : Prop where
  passed : Passed build owner (fun visit => isSettled visit.stage = true) settled
  gaveUp : Passed build owner (GaveUp call) lost
  disk : build.disk = call.diskAfter settled
  document : build.cache.document = call.cache.document
  held : ∀ (i : Nat) (visit : Visit), build.visits[i]? = some visit →
    owner visit.component.key = some i → build.cache.get? visit.component.key =
      some (if isSettled visit.stage then call.entry visit.component.reference
        else call.kept visit.component.reference)
  reports : ∃ cycles, build.reports =
      [(call.tally settled).add { Report.zero with failed := lost.length, cycles }] ∧
    (call.IsAcyclic → cycles = 0)

section Steps

variable {call : Call} {directory : Path} {setting : BuildSetting} {build next : Build}
  {owner owner' : ComponentKey → Option Nat} {index i : Nat} {visit other : Visit}
  {children : List Visit} {stage : Stage} {past : Visit → Prop}
  {references settled lost : List Reference} {reference : Reference}

namespace Passed

/-- As many components got that far if the visit that takes the step does not get there in it. -/
theorem stay (h : Passed build owner past references)
    (hstep : Advances setting build index visit children stage next)
    (howner : Extends owner owner' visit.component.key index)
    (hguarded : Guarded setting build owner)
    (hpast : owner' visit.component.key = some index →
      (past { visit with stage } ↔ owner visit.component.key = some index ∧ past visit)) :
    Passed next owner' past references where
  once := h.once
  mem_iff reference := by
    rw [h.mem_iff reference]
    constructor
    · rintro ⟨i, found, hfound, hown, hreference, hpastFound⟩
      have hown' := howner.kept _ _ hown
      by_cases heq : i = index
      · subst heq
        obtain rfl : found = visit := Option.some.inj (hfound.symm.trans hstep.found)
        exact ⟨i, _, hstep.own, hown', hreference, (hpast hown').2 ⟨hown, hpastFound⟩⟩
      · exact ⟨i, found, hstep.keeps heq hfound, hown', hreference, hpastFound⟩
    · rintro ⟨i, found, hfound, hown', hreference, hpastFound⟩
      rcases hstep.visit_cases hfound with ⟨rfl, rfl⟩ | ⟨hne, hkept⟩ | ⟨hne, hnone, -⟩
      · obtain ⟨hown, hpastVisit⟩ := (hpast hown').1 hpastFound
        exact ⟨i, visit, hstep.found, hown, hreference, hpastVisit⟩
      · have hown := (howner.new _ _ hown').resolve_right fun hnew => hne hnew.2.2
        exact ⟨i, found, hkept, hown, hreference, hpastFound⟩
      · have hown := (howner.new _ _ hown').resolve_right fun hnew => hne hnew.2.2
        obtain ⟨before, hbefore, -, -⟩ := hguarded.owned _ _ hown
        rw [hnone] at hbefore
        cases hbefore

/-- A component whose visit did not get that far is not among those that did. -/
theorem notMem (h : Passed build owner past references) (hfaithful : AllFaithful setting build)
    (hvisit : build.visits[index]? = some visit)
    (hown : owner visit.component.key = some index) (hnot : ¬past visit) :
    visit.component.reference ∉ references := by
  intro hmem
  obtain ⟨i, found, hfound, hownFound, hreference, hpast⟩ := (h.mem_iff _).1 hmem
  have hkey : found.component.key = visit.component.key := by
    rw [← (hfaithful i found hfound).key, hreference, (hfaithful index visit hvisit).key]
  rw [hkey, hown] at hownFound
  obtain rfl := Option.some.inj hownFound
  rw [hvisit] at hfound
  obtain rfl := Option.some.inj hfound
  exact hnot hpast

/-- One more component got that far. -/
theorem pass (h : Passed build owner past references)
    (hstep : Advances setting build index visit children stage next)
    (howner : Extends owner owner' visit.component.key index)
    (hguarded : Guarded setting build owner) (hfaithful : AllFaithful setting build)
    (hown : owner visit.component.key = some index) (hbefore : ¬past visit)
    (hafter : past { visit with stage }) :
    Passed next owner' past (visit.component.reference :: references) where
  once := List.nodup_cons.2 ⟨h.notMem hfaithful hstep.found hown hbefore, h.once⟩
  mem_iff reference := by
    rw [List.mem_cons, h.mem_iff reference]
    constructor
    · rintro (rfl | ⟨i, found, hfound, hownFound, hreference, hpast⟩)
      · exact ⟨index, _, hstep.own, howner.kept _ _ hown, rfl, hafter⟩
      · have hne : i ≠ index := by
          rintro rfl
          rw [hstep.found] at hfound
          obtain rfl := Option.some.inj hfound
          exact hbefore hpast
        exact ⟨i, found, hstep.keeps hne hfound, howner.kept _ _ hownFound, hreference, hpast⟩
    · rintro ⟨i, found, hfound, hown', hreference, hpast⟩
      rcases hstep.visit_cases hfound with ⟨rfl, rfl⟩ | ⟨hne, hkept⟩ | ⟨hne, hnone, -⟩
      · exact .inl hreference.symm
      · have hownFound := (howner.new _ _ hown').resolve_right fun hnew => hne hnew.2.2
        exact .inr ⟨i, found, hkept, hownFound, hreference, hpast⟩
      · have hownFound := (howner.new _ _ hown').resolve_right fun hnew => hne hnew.2.2
        obtain ⟨before, hbefore', -, -⟩ := hguarded.owned _ _ hownFound
        rw [hnone] at hbefore'
        cases hbefore'

end Passed

/-! ### The disk after some components were settled -/

theorem Call.deed?_reference {deed : Deed} (h : call.deed? reference = some deed) :
    deed.reference = reference := by
  unfold deed? at h
  split at h
  · cases h
  · obtain rfl := Option.some.inj h
    rfl
  · obtain rfl := Option.some.inj h
    split <;> rfl

namespace Call.IsOrderly

theorem keeps (h : call.IsOrderly directory) (reference : Reference) :
    Disk.Keeps call.naming.directory (call.change reference) :=
  Deed.keeps_change h.isProper h.endsPlain (call.deed? reference)

theorem commute (h : call.IsOrderly directory) {first second : Reference}
    (hfirst : call.Meets first) (hsecond : call.Meets second) (hne : first ≠ second) :
    Disk.Commute call.naming.directory (call.change first) (call.change second) := by
  unfold change
  cases hdeed : call.deed? first with
  | none => exact Disk.commute_pure true
  | some deed =>
      cases hdeed' : call.deed? second with
      | none => exact (Disk.commute_pure true).symm
      | some deed' =>
          refine Deed.change_comm h.isProper h.endsPlain fun heq => hne ?_
          rw [Call.deed?_reference hdeed, Call.deed?_reference hdeed'] at heq
          exact h.distinct first second hfirst hsecond heq

/-- A module can be written exactly if it could be at the start. -/
theorem manages_after (h : call.IsOrderly directory) (hmeets : call.Meets reference)
    (hsettled : ∀ other ∈ settled, call.Meets other) (hnew : reference ∉ settled) :
    (call.change reference (call.diskAfter settled)).2 = call.manages reference := by
  refine Disk.outcome_applyAll h.tidy h.keeps fun other hother => ?_
  refine h.commute (hsettled other hother) hmeets ?_
  rintro rfl
  exact hnew hother

/-- A module that was not settled is there exactly if it was at the start. -/
theorem holds_after (h : call.IsOrderly directory) (hmeets : call.Meets reference)
    (hsettled : ∀ other ∈ settled, call.Meets other) (hnew : reference ∉ settled) :
    (call.diskAfter settled).holds (call.naming.identity reference).path =
      call.disk.holds (call.naming.identity reference).path := by
  induction settled with
  | nil => rfl
  | cons other settled ih =>
      obtain ⟨hne, hrest⟩ := not_or.1 (mt List.mem_cons.2 hnew)
      have hbefore := ih (fun other hother => hsettled other (List.mem_cons_of_mem _ hother)) hrest
      refine Eq.trans ?_ hbefore
      have htidy : (call.diskAfter settled).IsTidy call.naming.directory :=
        h.tidy.applyAll h.keeps settled
      show (call.change other (call.diskAfter settled)).1.holds _ = _
      unfold change
      cases hdeed : call.deed? other with
      | none => rfl
      | some deed =>
          refine Deed.holds_change h.isProper h.endsPlain htidy fun heq => hne ?_
          rw [Call.deed?_reference hdeed] at heq
          exact (h.distinct other reference (hsettled other List.mem_cons_self) hmeets heq).symm

end Call.IsOrderly

namespace Ledger

theorem meets (h : Ledger call build owner settled lost) (hfits : Fits call build owner) :
    ∀ reference ∈ settled, call.Meets reference := by
  intro reference hmem
  obtain ⟨i, visit, hvisit, -, rfl, -⟩ := (h.passed.mem_iff reference).1 hmem
  exact (hfits.comes i visit hvisit).met

theorem seesModule (h : Ledger call build owner settled lost) (hfits : Fits call build owner)
    (horderly : call.IsOrderly directory) (hvisit : build.visits[index]? = some visit) :
    SeesModule call build visit := by
  intro deps hstage
  have hown := hfits.guarded.owner_eq hvisit hstage trivial
  have hnew := h.passed.notMem hfits.faithful hvisit hown (by simp [hstage, isSettled])
  have hpath : visit.component.identity.path =
      (call.naming.identity visit.component.reference).path :=
    congrArg (·.identity.path) (hfits.faithful index visit hvisit).component
  rw [h.disk, hpath]
  exact horderly.holds_after (hfits.comes index visit hvisit).met (h.meets hfits) hnew

/-- The files of a component that is not settled can be written if they could be at the start. -/
theorem manages_eq (h : Ledger call build owner settled lost) (hfits : Fits call build owner)
    (horderly : call.IsOrderly directory) (hvisit : build.visits[index]? = some visit)
    (hown : owner visit.component.key = some index) (hsettled : isSettled visit.stage = false)
    (hdeed : visit.deed? call.setting = call.deed? visit.component.reference) :
    manages call.setting build visit = call.manages visit.component.reference := by
  have hnew := h.passed.notMem hfits.faithful hvisit hown (by simp [hsettled])
  rw [manages, hdeed, h.disk]
  exact horderly.manages_after (hfits.comes index visit hvisit).met (h.meets hfits) hnew

end Ledger

/-! ### Steps -/

theorem document_cacheAfter (setting : BuildSetting) (build : Build) (visit : Visit) :
    (cacheAfter setting build visit).document = build.cache.document := by
  unfold cacheAfter
  dsimp only
  split
  · split <;> rfl
  · split <;> rfl
  · split
    · split <;> rfl
    · rfl
  · rfl

theorem get?_ensure (cache : Cache) (key : ComponentKey) :
    (cache.ensure key).get? key = some ((cache.get? key).getD .unknown) := by
  unfold Cache.ensure Cache.get?
  rw [Std.ExtTreeMap.getElem?_insertIfNew]
  cases hentry : cache.entries[key]? with
  | none =>
      have hnew : key ∉ cache.entries := by
        rw [Std.ExtTreeMap.mem_iff_isSome_getElem?]
        simp [hentry]
      rw [if_pos ⟨by simp, hnew⟩]
      rfl
  | some entry =>
      have hmem : key ∈ cache.entries :=
        Std.ExtTreeMap.mem_iff_isSome_getElem?.2 (by simp [hentry])
      rw [if_neg (by simp [hmem])]
      rfl

/-- A step keeps a ledger if it accounts for the component of its visit. -/
theorem Ledger.of_step {settled' lost' : List Reference} (h : Ledger call build owner settled lost)
    (hstep : Advances call.setting build index visit children stage next)
    (howner : Extends owner owner' visit.component.key index)
    (haccounts : Accounts call.setting build visit next)
    (hpassed : Passed next owner' (fun visit => isSettled visit.stage = true) settled')
    (hgaveUp : Passed next owner' (GaveUp call) lost')
    (hdisk : next.disk = call.diskAfter settled')
    (hown : owner' visit.component.key = some index → next.cache.get? visit.component.key =
      some (if isSettled stage then call.entry visit.component.reference
        else call.kept visit.component.reference))
    (hidle : owner' visit.component.key ≠ some index → next.cache = build.cache)
    (hreports : ∃ cycles, next.reports =
        [(call.tally settled').add { Report.zero with failed := lost'.length, cycles }] ∧
      (call.IsAcyclic → cycles = 0))
    (hguarded : Guarded call.setting build owner) :
    Ledger call next owner' settled' lost' where
  passed := hpassed
  gaveUp := hgaveUp
  disk := hdisk
  document := by rw [haccounts.cache, document_cacheAfter, h.document]
  held i other hother hownOther := by
    rcases hstep.visit_cases hother with ⟨rfl, rfl⟩ | ⟨hne, hkept⟩ | ⟨hne, hnone, -⟩
    · exact hown hownOther
    · have hold := (howner.new _ _ hownOther).resolve_right fun hnew => hne hnew.2.2
      rw [← h.held i other hkept hold]
      by_cases hself : owner' visit.component.key = some index
      · refine hstep.move.cache_get? fun hkey => hne ?_
        rw [hkey, hself] at hownOther
        exact (Option.some.inj hownOther).symm
      · rw [hidle hself]
    · have hold := (howner.new _ _ hownOther).resolve_right fun hnew => hne hnew.2.2
      obtain ⟨before, hbefore, -, -⟩ := hguarded.owned _ _ hold
      rw [hnone] at hbefore
      cases hbefore
  reports := hreports

namespace Ledger

variable (h : Ledger call build owner settled lost) (hfits : Fits call build owner)
  (hstep : Advances call.setting build index visit children stage next)
  (howner : Extends owner owner' visit.component.key index)
  (haccounts : Accounts call.setting build visit next)

include h hfits hstep haccounts

theorem reports_step :
    ∃ cycles, next.reports =
      [((call.tally settled).add { Report.zero with failed := lost.length, cycles }).add
        (dues call.setting build visit)] ∧ (call.IsAcyclic → cycles = 0) := by
  obtain ⟨cycles, hreports, hacyclic⟩ := h.reports
  refine ⟨cycles, ?_, hacyclic⟩
  rw [haccounts.reports, hreports, (hfits.comes index visit hstep.found).run]
  rfl

include howner

/-- A step that neither settles a component nor gives one up. -/
theorem quiet (hdeed : visit.deed? call.setting = none)
    (hsettled : owner' visit.component.key = some index →
      (isSettled stage = true ↔
        owner visit.component.key = some index ∧ isSettled visit.stage = true))
    (hgaveUp : owner' visit.component.key = some index →
      (GaveUp call { visit with stage } ↔
        owner visit.component.key = some index ∧ GaveUp call visit))
    (hdues : ∃ cycles, dues call.setting build visit = { Report.zero with cycles } ∧
      (call.IsAcyclic → cycles = 0))
    (hcache : next.cache = build.cache ∧ (owner' visit.component.key = some index →
        owner visit.component.key = some index) ∨
      owner visit.component.key = none ∧ owner' visit.component.key = some index ∧
        next.cache = build.cache.ensure visit.component.key) :
    Ledger call next owner' settled lost := by
  refine h.of_step hstep howner haccounts (h.passed.stay hstep howner hfits.guarded hsettled)
    (h.gaveUp.stay hstep howner hfits.guarded hgaveUp) ?_ (fun hown => ?_) (fun hother => ?_) ?_
    hfits.guarded
  · rw [hstep.disk, hdeed, ← h.disk]
    rfl
  · rcases hcache with ⟨hsame, hold⟩ | ⟨hnone, -, hensured⟩
    · have hiff : isSettled stage = isSettled visit.stage :=
        Bool.eq_iff_iff.2 ((hsettled hown).trans (and_iff_right (hold hown)))
      rw [hsame, hiff]
      exact h.held index visit hstep.found (hold hown)
    · have hnot : isSettled stage = false := by
        rw [Bool.eq_false_iff, ne_eq, hsettled hown, hnone]
        simp
      rw [hensured, get?_ensure, hfits.unmet _ hnone, hnot, Call.kept,
        show call.naming.key visit.component.reference = visit.component.key from
          (hfits.faithful index visit hstep.found).key]
      rfl
  · exact (hcache.resolve_right fun hnew => hother hnew.2.1).1
  · obtain ⟨cycles, hreports, hacyclic⟩ := h.reports_step hfits hstep haccounts
    obtain ⟨more, hdues, hmore⟩ := hdues
    refine ⟨cycles + more, ?_, fun h => by rw [hacyclic h, hmore h]⟩
    rw [hreports, hdues]
    simp [Report.add, Report.zero, Nat.add_assoc]

/-- A step in which a component is given up. -/
theorem lose (hown : owner visit.component.key = some index)
    (hdeed : visit.deed? call.setting = none) (hsettled : isSettled visit.stage = false)
    (hstays : isSettled stage = false) (hbefore : ¬GaveUp call visit)
    (hafter : GaveUp call { visit with stage })
    (hdues : dues call.setting build visit = { Report.zero with failed := 1 })
    (hcache : next.cache = build.cache) :
    Ledger call next owner' settled (visit.component.reference :: lost) := by
  refine h.of_step hstep howner haccounts
    (h.passed.stay hstep howner hfits.guarded fun _ => by simp [hsettled, hstays])
    (h.gaveUp.pass hstep howner hfits.guarded hfits.faithful hown hbefore hafter) ?_ (fun _ => ?_)
    (fun _ => hcache) ?_ hfits.guarded
  · rw [hstep.disk, hdeed, ← h.disk]
    rfl
  · rw [hcache, h.held index visit hstep.found hown, hsettled, hstays]
  · obtain ⟨cycles, hreports, hacyclic⟩ := h.reports_step hfits hstep haccounts
    refine ⟨cycles, ?_, hacyclic⟩
    rw [hreports, hdues]
    rfl

/-- A step in which a component is settled. -/
theorem settle (hown : owner visit.component.key = some index)
    (hdeed : visit.deed? call.setting = call.deed? visit.component.reference)
    (hbefore : isSettled visit.stage = false) (hafter : isSettled stage = true)
    (hgaveUp : GaveUp call { visit with stage } ↔ GaveUp call visit)
    (hdues : ∃ cycles, dues call.setting build visit =
        (call.dues visit.component.reference).add { Report.zero with cycles } ∧
      (call.IsAcyclic → cycles = 0))
    (hcache : next.cache.get? visit.component.key = some (call.entry visit.component.reference)) :
    Ledger call next owner' (visit.component.reference :: settled) lost := by
  refine h.of_step hstep howner haccounts
    (h.passed.pass hstep howner hfits.guarded hfits.faithful hown (by simp [hbefore]) hafter)
    (h.gaveUp.stay hstep howner hfits.guarded fun _ => hgaveUp.trans (and_iff_right hown).symm) ?_
    (fun _ => ?_) (fun hother => absurd (howner.kept _ _ hown) hother) ?_ hfits.guarded
  · rw [hstep.disk, hdeed, h.disk]
    rfl
  · rw [hcache, hafter]
    rfl
  · obtain ⟨cycles, hreports, hacyclic⟩ := h.reports_step hfits hstep haccounts
    obtain ⟨more, hdues, hmore⟩ := hdues
    refine ⟨cycles + more, ?_, fun h => by rw [hacyclic h, hmore h]⟩
    rw [hreports, hdues]
    simp [Call.tally, Report.add, Report.zero, Nat.add_assoc, Nat.add_comm, Nat.add_left_comm]

omit haccounts in
/-- A step of a visit that did not close the gates of its component. -/
theorem idle (hnext : build.step? call.setting index = some next)
    (hdeed : visit.deed? call.setting = none) (hsome : (owner visit.component.key).isSome)
    (hother : owner visit.component.key ≠ some index)
    (hdues : dues call.setting build visit = .zero) (hcache : next.cache = build.cache) :
    Ledger call next owner' settled lost := by
  have hother' : owner' visit.component.key ≠ some index := by
    intro hown
    rcases howner.new _ _ hown with hold | ⟨hnone, -, -⟩
    · exact hother hold
    · simp [hnone] at hsome
  exact h.quiet hfits hstep howner (accounts_step hstep.found hnext) hdeed
    (fun hown => absurd hown hother') (fun hown => absurd hown hother')
    ⟨0, hdues, fun _ => rfl⟩ (.inl ⟨hcache, fun hown => absurd hown hother'⟩)

omit haccounts in
/-- A step in which the gates of a component are closed. -/
theorem claim (hnext : build.step? call.setting index = some next)
    (hstage : visit.stage = .arriving) (hkey : visit.component.key ∉ build.knowledge.nodes)
    (hsettled : isSettled stage = false) (hgaveUp : ¬GaveUp call { visit with stage })
    (hcache : next.cache = build.cache.ensure visit.component.key) :
    Ledger call next owner' settled lost := by
  have hnone : owner visit.component.key = none := by
    simpa using mt (hfits.guarded.isSome_iff visit.component.key).1 hkey
  have hown : owner' visit.component.key = some index := by
    obtain ⟨i, hi⟩ := Option.isSome_iff_exists.1 howner.met
    rcases howner.new _ _ hi with hold | ⟨-, -, rfl⟩
    · rw [hnone] at hold
      cases hold
    · exact hi
  refine h.quiet hfits hstep howner (accounts_step hstep.found hnext)
    (deed?_eq_none_of_stage hstage rfl)
    (fun _ => by simp [hsettled, hnone]) (fun _ => by simp [hgaveUp, hnone])
    ⟨0, by simp only [dues, hstage]; rfl, fun _ => rfl⟩ (.inr ⟨hnone, hown, hcache⟩)

omit haccounts in
/-- A step of a visit at work that neither settles its component nor gives it up. -/
theorem proceed (hnext : build.step? call.setting index = some next)
    (hown : owner visit.component.key = some index) (hdeed : visit.deed? call.setting = none)
    (hsettled : isSettled stage = isSettled visit.stage)
    (hgaveUp : GaveUp call { visit with stage } ↔ GaveUp call visit)
    (hdues : ∃ cycles, dues call.setting build visit = { Report.zero with cycles } ∧
      (call.IsAcyclic → cycles = 0)) (hcache : next.cache = build.cache) :
    Ledger call next owner' settled lost :=
  h.quiet hfits hstep howner (accounts_step hstep.found hnext) hdeed
    (fun _ => by simp [hsettled, hown]) (fun _ => hgaveUp.trans (and_iff_right hown).symm) hdues
    (.inl ⟨hcache, fun _ => hown⟩)

end Ledger

theorem Call.deed?_of_found {deps : List Dependency} (h : call.fate reference = .found deps) :
    call.deed? reference = none := by
  rw [deed?, h]

/-- A step in which the module of a component that was served is written. -/
theorem Ledger.record (h : Ledger call build owner settled lost) (hfits : Fits call build owner)
    (horderly : call.IsOrderly directory) (hnext : build.step? call.setting index = some next)
    (hstep : Advances call.setting build index visit children stage next)
    (howner : Extends owner owner' visit.component.key index)
    (hown : owner visit.component.key = some index) {payload : Payload} {deed : Deed}
    (hfate : call.fate visit.component.reference = .served payload)
    (hdeed : visit.deed? call.setting = some deed) (hbefore : isSettled visit.stage = false)
    (hafter : isSettled stage = true)
    (hgaveUp : GaveUp call { visit with stage } ↔ GaveUp call visit)
    (hdues : ∃ cycles, dues call.setting build visit =
        (written (manages call.setting build visit)).add { Report.zero with cycles } ∧
      (call.IsAcyclic → cycles = 0))
    (hcache : cacheAfter call.setting build visit =
      if manages call.setting build visit then
        build.cache.recordSuccess visit.component.key payload.deps
      else build.cache) :
    Ledger call next owner' (visit.component.reference :: settled) lost := by
  have hdeed' := hfits.deed?_eq horderly hstep.found hdeed
  rw [← hdeed] at hdeed'
  have hmanages := h.manages_eq hfits horderly hstep.found hown hbefore hdeed'.symm
  have haccounts := accounts_step hstep.found hnext
  rw [hmanages] at hdues hcache
  refine h.settle hfits hstep howner haccounts hown hdeed'.symm hbefore hafter hgaveUp ?_ ?_
  · rw [Call.dues, hfate]
    exact hdues
  · rw [haccounts.cache, hcache, Call.entry, hfate]
    dsimp only
    split
    · simp [Cache.recordSuccess, Cache.get?]
    · rw [h.held index visit hstep.found hown, hbefore]
      rfl

/-- **A step keeps the ledger**, with at most one more component settled or given up. -/
theorem Ledger.advance (h : Ledger call build owner settled lost) (hfits : Fits call build owner)
    (horderly : call.IsOrderly directory)
    (hnext : build.step? call.setting index = some next)
    (hstep : Advances call.setting build index visit children stage next)
    (howner : Extends owner owner' visit.component.key index) :
    ∃ settled lost, Ledger call next owner' settled lost := by
  have hfaithful := hfits.faithful index visit hstep.found
  have hfated := hfits.fated index visit hstep.found
  have hcomes := hfits.comes index visit hstep.found
  have hsees := h.seesModule hfits horderly hstep.found
  have haccounts := accounts_step hstep.found hnext
  have howns : ∀ {stage' : Stage}, visit.stage = stage' → IsUnderWay stage' →
      owner visit.component.key = some index :=
    fun hstage hway => hfits.guarded.owner_eq hstep.found hstage hway
  have hmove := hstep.move
  generalize hknowledge : next.knowledge = knowledge at hmove
  generalize hcache : next.cache = cache at hmove
  cases hmove with
  | wait hstage hkey =>
      exact ⟨settled, lost, h.idle hfits hstep howner hnext (deed?_eq_none_of_stage hstage rfl)
        ((hfits.guarded.isSome_iff _).2 hkey) (hfits.guarded.not_owner hstep.found hstage rfl)
        (by simp only [dues, hstage]) hcache⟩
  | claimKnown deps hstage hkey hentry =>
      exact ⟨settled, lost, h.claim hfits hstep howner hnext hstage hkey rfl (by simp [GaveUp])
        hcache⟩
  | claimUnknown hstage hkey =>
      exact ⟨settled, lost, h.claim hfits hstep howner hnext hstage hkey rfl (by simp [GaveUp])
        hcache⟩
  | release hstage hgate =>
      have hother := hfits.guarded.not_owner hstep.found hstage rfl
      have hsome : (owner visit.component.key).isSome := by
        rcases hfits.guarded.others index visit hstep.found hother with harriving | ⟨-, hsome⟩
        · rw [hstage] at harriving
          cases harriving
        · exact hsome
      exact ⟨settled, lost, h.idle hfits hstep howner hnext (deed?_eq_none_of_stage hstage rfl) hsome
        hother (by simp only [dues, hstage]) hcache⟩
  | hit deps hstage hheld =>
      have hfate := fate_of_hit hfated hfaithful hsees hstage hheld
      have hdeps : call.deps visit.component.reference = deps := by
        rw [Call.deps, hfate, Fate.deps]
      refine ⟨_, lost, h.settle hfits hstep howner haccounts (howns hstage trivial) ?_
        (by rw [hstage]; rfl) rfl (by simp [GaveUp, joiningStage, hstage])
        ⟨cyclesAmong call.setting visit deps, ?_, fun hacyclic => ?_⟩ ?_⟩
      · rw [deed?_eq_none_of_stage hstage rfl, Call.deed?_of_found hfate]
      · simp only [dues, hstage, if_pos hheld, Call.dues, hfate]
        simp [Report.add, Report.zero]
      · rw [← hdeps]
        exact hcomes.cyclesAmong_eq horderly hfaithful.key hacyclic
      · rw [hcache, h.held index visit hstep.found (howns hstage trivial), hstage, Call.entry, hfate]
        rfl
  | miss deps hstage hheld =>
      exact ⟨settled, lost, h.proceed hfits hstep howner hnext (howns hstage trivial)
        (deed?_eq_none_of_stage hstage rfl) (by rw [hstage]; rfl) (by simp [GaveUp, hstage])
        ⟨0, by simp only [dues, hstage, hheld]; rfl, fun _ => rfl⟩ hcache⟩
  | lack hstage hrule =>
      refine ⟨settled, _, h.lose hfits hstep howner haccounts (howns hstage trivial)
        (deed?_eq_none_of_stage hstage rfl) (by rw [hstage]; rfl) rfl (by simp [GaveUp, hstage])
        (.inl rfl) ?_ hcache⟩
      simp only [dues, hstage, if_pos hrule]
  | send hstage hrule =>
      exact ⟨settled, lost, h.proceed hfits hstep howner hnext (howns hstage trivial)
        (deed?_eq_none_of_stage hstage rfl) (by rw [hstage]; rfl) (by simp [GaveUp, hstage])
        ⟨0, by simp only [dues, hstage, if_neg hrule]; rfl, fun _ => rfl⟩ hcache⟩
  | refuse failure hstage hresponse =>
      refine ⟨settled, _, h.lose hfits hstep howner haccounts (howns hstage trivial)
        (deed?_eq_none_of_stage hstage rfl) (by rw [hstage]; rfl) rfl (by simp [GaveUp, hstage])
        (.inl rfl) ?_ hcache⟩
      simp only [dues, hstage, hresponse]
  | takeDependency payload warnings hstage hresponse hchild =>
      exact ⟨settled, lost, h.proceed hfits hstep howner hnext (howns hstage trivial)
        (deed?_eq_none_of_stage hstage rfl) (by rw [hstage]; rfl) (by simp [GaveUp, hstage])
        ⟨0, by simp only [dues, hstage, hresponse, if_pos hchild]; rfl, fun _ => rfl⟩ hcache⟩
  | takeEntry payload warnings hstage hresponse hchild =>
      have hfate := fate_of_answer hfated hfaithful hstage hresponse
      have hdeps : call.deps visit.component.reference = payload.deps := by
        rw [Call.deps, hfate, Fate.deps]
      refine ⟨settled, lost, h.proceed hfits hstep howner hnext (howns hstage trivial)
        (deed?_eq_none_of_stage hstage rfl) (by rw [hstage]; rfl)
        (by simp [GaveUp, joiningStage, hstage])
        ⟨cyclesAmong call.setting visit payload.deps, ?_, fun hacyclic => ?_⟩ hcache⟩
      · simp only [dues, hstage, hresponse, hchild]
        rfl
      · rw [← hdeps]
        exact hcomes.cyclesAmong_eq horderly hfaithful.key hacyclic
  | apologize hstage =>
      have hfate : call.fate visit.component.reference = .lost := by
        rw [IsFated, hstage] at hfated
        exact hfated
      have hdeed : visit.deed? call.setting = some (.message visit.component.reference) := by
        rw [Visit.deed?, hstage]
      have hdeed' := hfits.deed?_eq horderly hstep.found hdeed
      rw [← hdeed] at hdeed'
      have hmanages := h.manages_eq hfits horderly hstep.found (howns hstage trivial)
        (by rw [hstage]; rfl) hdeed'.symm
      refine ⟨_, lost, h.settle hfits hstep howner haccounts (howns hstage trivial) hdeed'.symm
        (by rw [hstage]; rfl) rfl (by simp [GaveUp, hstage, hfate]) ⟨0, ?_, fun _ => rfl⟩ ?_⟩
      · simp only [dues, hstage, Call.dues, hfate, hmanages]
        rfl
      · rw [hcache, h.held index visit hstep.found (howns hstage trivial), hstage, Call.entry, hfate]
        rfl
  | writeDependency payload written hstage hwritten =>
      have hfate : call.fate visit.component.reference = .served payload := by
        rw [IsFated, hstage] at hfated
        exact hfated
      have hdeps : call.deps visit.component.reference = payload.deps := by
        rw [Call.deps, hfate, Fate.deps]
      refine ⟨_, lost, h.record hfits horderly hnext hstep howner (howns hstage trivial) hfate
        (by rw [Visit.deed?, hstage]) (by rw [hstage]; rfl) rfl
        (by simp [GaveUp, joiningStage, hstage])
        ⟨cyclesAmong call.setting visit payload.deps, by simp only [dues, hstage],
          fun hacyclic => ?_⟩ (by simp only [cacheAfter, hstage])⟩
      rw [← hdeps]
      exact hcomes.cyclesAmong_eq horderly hfaithful.key hacyclic
  | joinDependency ids hstage hdone =>
      have hfate : call.fate visit.component.reference ≠ .lost := by
        rw [IsFated, hstage] at hfated
        exact hfated
      exact ⟨settled, lost, h.proceed hfits hstep howner hnext (howns hstage trivial)
        (deed?_eq_none_of_stage hstage rfl) (by rw [hstage]; rfl) (by simp [GaveUp, hstage, hfate])
        ⟨0, by simp only [dues, hstage]; rfl, fun _ => rfl⟩ hcache⟩
  | joinEntry ids payload hstage hdone =>
      exact ⟨settled, lost, h.proceed hfits hstep howner hnext (howns hstage trivial)
        (deed?_eq_none_of_stage hstage rfl) (by rw [hstage]; rfl) (by simp [GaveUp, hstage])
        ⟨0, by simp only [dues, hstage]; rfl, fun _ => rfl⟩ hcache⟩
  | pass payload gathering reference pending hstage hpending hseen =>
      exact ⟨settled, lost, h.proceed hfits hstep howner hnext (howns hstage trivial)
        (by simp only [Visit.deed?, hstage, hpending]) (by rw [hstage]; rfl)
        (by simp [GaveUp, hstage])
        ⟨0, by simp only [dues, hstage, hpending]; rfl, fun _ => rfl⟩ hcache⟩
  | gather payload gathering reference pending hstage hpending hseen hgate =>
      exact ⟨settled, lost, h.proceed hfits hstep howner hnext (howns hstage trivial)
        (by simp only [Visit.deed?, hstage, hpending]) (by rw [hstage]; rfl)
        (by simp [GaveUp, hstage])
        ⟨0, by simp only [dues, hstage, hpending]; rfl, fun _ => rfl⟩ hcache⟩
  | writeEntry payload gathering written hstage hpending hwritten =>
      have hfate : call.fate visit.component.reference = .served payload := by
        rw [IsFated, hstage] at hfated
        exact hfated
      have hdeed : visit.deed? call.setting =
          some (.entry visit.component.reference payload gathering.found) := by
        simp only [Visit.deed?, hstage, hpending]
      exact ⟨_, lost, h.record hfits horderly hnext hstep howner (howns hstage trivial) hfate
        hdeed (by rw [hstage]; rfl) rfl (by simp [GaveUp, hstage, hfate])
        ⟨0, by simp only [dues, hstage, if_pos hpending]; rfl, fun _ => rfl⟩
        (by simp only [cacheAfter, hstage, if_pos hpending])⟩

end Steps

end ComponentTags.Build
