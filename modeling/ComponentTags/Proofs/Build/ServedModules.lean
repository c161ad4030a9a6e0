import ComponentTags.Proofs.Build.EntryRegistry
import ComponentTags.Proofs.Build.History

/-!
What a module in the component directory is: it stays what it was written as last. A hit in the cache
takes it as it is, whatever the hit is for.
-/

namespace ComponentTags.Build

/-- The endpoint of the setting serves the component with that payload. -/
def Serves (setting : BuildSetting) (reference : Reference) (payload : Payload) : Prop :=
  ∃ rule warnings, setting.registry.find? reference.tag = some rule ∧
    setting.endpoint
      { reference, identifier := (setting.workshop.naming.identity reference).identifier
        api := rule.api } = some (.ok (payload, warnings))

/-- The module under a name was written last in the turn of such a visit. -/
def WrittenLast (name : String) (events : List Event) (isSuch : Visit → Prop) : Prop :=
  ∃ setting turn visit deed, .turn setting turn ∈ events ∧ turn.visit? = some visit ∧
    visit.deed? setting = some deed ∧ isSuch visit ∧
    lastDeed? name events = some (setting.workshop, deed)

/-- A text that some history wrote for a component from what an endpoint served, and no message. -/
structure IsGenuine (events : List Event) (name : String) (content : List UInt8) : Prop where
  served : ∃ setting turn deed payload, .turn setting turn ∈ events ∧
    turn.deed? setting = some deed ∧ setting.workshop.naming.moduleName deed.reference = name ∧
    deed.payload? = some payload ∧ Serves setting deed.reference payload ∧
    content = deed.content setting.workshop
  not_message : ∀ workshop reference, content ≠ (Deed.message reference).content workshop

/-- The text of an entry: the code under the name that is rendered, and the error boundary around it. -/
def IsEntryArtifact (content : List UInt8) : Prop :=
  ∃ workshop reference payload closure,
    content = (Deed.entry reference payload closure).content workshop

section Turns

variable {directory : Path} {events : List Event} {setting : BuildSetting} {build : Build}
  {visit : Visit} {deed : Deed} {name : String} {payload : Payload} {content : List UInt8}

theorem serves_of_response {warnings : List Warning}
    (hcomponent : visit.component = named setting visit.component.reference)
    (h : response setting visit = .ok (payload, warnings)) :
    Serves setting visit.component.reference payload := by
  unfold response at h
  dsimp only at h
  split at h
  · cases h
  · next rule hrule =>
      rw [hcomponent] at h
      cases hanswer : setting.endpoint
          { reference := visit.component.reference
            identifier := (setting.workshop.naming.identity visit.component.reference).identifier
            api := rule.api } with
      | none =>
          have : Except.error (FetchFailure.timeout setting.timeout) = .ok (payload, warnings) := by
            rw [← h]
            exact (congrArg (Option.getD · _) hanswer).symm
          cases this
      | some answer =>
          have hok : answer = .ok (payload, warnings) := by
            rw [← h]
            exact (congrArg (Option.getD · _) hanswer).symm
          exact ⟨rule, warnings, hrule, by rw [hanswer, hok]⟩

theorem mem_of_mem_distinctBy {α : Type} {key : α → ComponentKey} {seen : List ComponentKey}
    {items : List α} {item : α} (h : item ∈ distinctBy key seen items) : item ∈ items := by
  induction items generalizing seen with
  | nil => exact h
  | cons first items ih =>
      rw [distinctBy] at h
      split at h
      · exact List.mem_cons_of_mem _ (ih h)
      · rcases List.mem_cons.1 h with rfl | hrest
        · exact List.mem_cons_self
        · exact List.mem_cons_of_mem _ (ih hrest)

theorem isNamed_of_deed? (hproper : setting.workshop.naming.IsProper)
    (hdeed : visit.deed? setting = some deed) : deed.IsNamed := by
  have hdirect : ∀ deps : List Dependency,
      ∀ registration ∈ directRegistrations setting visit.component.reference deps,
        registration.IsNamed := by
    intro deps registration hregistration
    obtain ⟨component, hcomponent, rfl⟩ := List.mem_map.1 hregistration
    obtain ⟨dep, -, rfl⟩ := List.mem_map.1 (mem_of_mem_distinctBy hcomponent)
    exact ⟨_, _, hproper, rfl⟩
  unfold Visit.deed? at hdeed
  split at hdeed
  · cases hdeed
    trivial
  · cases hdeed
    exact hdirect _
  · split at hdeed
    · cases hdeed
      trivial
    · cases hdeed
  · cases hdeed

theorem payload?_of_deed? (hdeed : visit.deed? setting = some deed)
    (hpayload : deed.payload? = some payload) : payload? visit.stage = some payload := by
  unfold Visit.deed? at hdeed
  split at hdeed
  · cases hdeed
    cases hpayload
  · next carried hstage =>
      cases hdeed
      cases hpayload
      rw [hstage]
      rfl
  · next carried gathering hstage =>
      split at hdeed
      · cases hdeed
        cases hpayload
        rw [hstage]
        rfl
      · cases hdeed
  · cases hdeed

theorem shape_eq_message_iff (hdeed : visit.deed? setting = some deed) :
    deed.shape = .message ↔ visit.stage = .failing := by
  unfold Visit.deed? at hdeed
  split at hdeed
  · next hstage =>
      cases hdeed
      simp [Deed.shape, hstage]
  · next carried hstage =>
      cases hdeed
      simp [Deed.shape, hstage]
  · next carried gathering hstage =>
      split at hdeed
      · cases hdeed
        simp [Deed.shape, hstage]
      · cases hdeed
  · cases hdeed

/-- Entries are written for components that a source refers to itself. -/
theorem shape_eq_entry_iff (hfaithful : IsFaithful setting visit)
    (hdeed : visit.deed? setting = some deed) :
    deed.shape = .entry ↔ visit.isChild = false ∧ visit.stage ≠ .failing := by
  have hsuits := hfaithful.suits
  unfold Visit.deed? at hdeed
  split at hdeed
  · next hstage =>
      cases hdeed
      simp [Deed.shape, hstage]
  · next carried hstage =>
      cases hdeed
      rw [hstage] at hsuits
      have hchild : visit.isChild = true := hsuits
      simp [Deed.shape, hchild]
  · next carried gathering hstage =>
      split at hdeed
      · cases hdeed
        rw [hstage] at hsuits
        have hchild : visit.isChild = false := hsuits
        simp [Deed.shape, hstage, hchild]
      · cases hdeed
  · cases hdeed

theorem History.exists_turn (h : History directory events setting build) {workshop : Workshop}
    (hlast : lastDeed? name events = some (workshop, deed)) :
    ∃ setting turn visit, .turn setting turn ∈ events ∧ setting.workshop = workshop ∧
      turn.visit? = some visit ∧ visit.deed? setting = some deed ∧ IsFaithful setting visit ∧
      deed.IsNamed ∧ setting.workshop.naming.moduleName deed.reference = name := by
  obtain ⟨setting', turn, hturn, hworkshop, hdeed, hname⟩ := exists_of_lastDeed? hlast
  obtain ⟨visit, hvisit, hwrites⟩ := Option.bind_eq_some_iff.1 hdeed
  obtain ⟨hsetting, hfaithful⟩ := h.turn hturn
  exact ⟨setting', turn, visit, hturn, hworkshop, hvisit, hwrites,
    hfaithful turn.index visit hvisit, isNamed_of_deed? hsetting.isProper hwrites, hname⟩

theorem IsFaithful.serves (hfaithful : IsFaithful setting visit)
    (hdeed : visit.deed? setting = some deed) (hpayload : deed.payload? = some payload) :
    Serves setting deed.reference payload := by
  obtain ⟨warnings, hresponse⟩ := hfaithful.answered payload (payload?_of_deed? hdeed hpayload)
  rw [deed?_reference hdeed]
  exact serves_of_response hfaithful.component hresponse

end Turns

section Modules

variable {directory : Path} {events : List Event} {setting : BuildSetting} {build : Build}
  {visit : Visit} {index : Nat}

/--
**What a hit finds.** The module that a hit takes as it is was made from what an endpoint served for
the component exactly if the message of a failed request was not written there last.
-/
theorem hit_isGenuine_iff (hhistory : History directory events setting build)
    {deps : List Dependency} (hhit : Turn.Hits ⟨build, index⟩ visit deps) {content : List UInt8}
    (hread : build.disk.read visit.component.identity.path = .ok content) :
    IsGenuine events (setting.workshop.naming.moduleName visit.component.reference) content ↔
      ¬WrittenLast (setting.workshop.naming.moduleName visit.component.reference) events
        (·.stage = .failing) := by
  have hsetting := hhistory.buildsIn
  have hname := hsetting.isProper.isModuleName visit.component.reference
  have hcomponent := (hhistory.allFaithful index visit hhit.1).component
  have hpath : visit.component.identity.path =
      directory / "com" / setting.workshop.naming.moduleName visit.component.reference := by
    rw [hcomponent]
    exact hsetting.path_eq visit.component.reference
  rw [hpath, (hhistory.reflects hname).read_iff] at hread
  obtain ⟨workshop, deed, hlast, rfl⟩ := hread
  obtain ⟨setting', turn, writer, hturn, rfl, hwriter, hdeed, hfaithful, hnamed, hmodule⟩ :=
    hhistory.exists_turn hlast
  constructor
  · rintro hgenuine ⟨other, turn', failing, message, -, -, hmessage, hfailing, hlast'⟩
    have heq := Option.some.inj (hlast.symm.trans hlast')
    rw [Prod.mk.injEq] at heq
    obtain ⟨-, rfl⟩ := heq
    have hshape := (shape_eq_message_iff hmessage).2 hfailing
    cases deed with
    | message reference => exact hgenuine.not_message setting'.workshop reference rfl
    | _ => cases hshape
  · intro hlost
    have hstage : writer.stage ≠ .failing := fun hfailing =>
      hlost ⟨setting', turn, writer, deed, hturn, hwriter, hdeed, hfailing, hlast⟩
    have hshape : deed.shape ≠ .message := mt (shape_eq_message_iff hdeed).1 hstage
    obtain ⟨payload, hpayload⟩ : ∃ payload, deed.payload? = some payload := by
      cases deed with
      | message reference => exact absurd rfl hshape
      | entry reference payload closure => exact ⟨payload, rfl⟩
      | dependency reference payload needed => exact ⟨payload, rfl⟩
    refine ⟨⟨setting', turn, deed, payload, hturn, ?_, hmodule, hpayload,
      hfaithful.serves hdeed hpayload, rfl⟩, ?_⟩
    · rw [Turn.deed?, hwriter]
      exact hdeed
    · intro workshop reference heq
      exact hshape (shape_eq_of_content deed (.message reference) hnamed trivial heq)

/-- The setting of `menuSetting` while its endpoint is out of order. -/
def outageSetting : BuildSetting :=
  { menuSetting with endpoint := fun _ => some (.error (.status 500)) }

/-- The component `menu`, as a source refers to it. -/
def menu : Reference :=
  ⟨"ui", "menu", "1"⟩

/-- The name of the module of `menu`. -/
def menuName : String :=
  menuSetting.workshop.naming.moduleName menu

/-- The build of `menu` for a source. -/
def servedBuild : Build :=
  ((Build.start .inMemory .empty).begin ([menu].map (named menuSetting))).sweep menuSetting
    [0, 0, 0, 0, 0]

/-- The build of `menu` after its module was deleted, when the request has failed. -/
def outageBuild : Build :=
  ((Build.start servedBuild.cache
    (servedBuild.disk.deleteFile ((⟨"/w"⟩ : Path) / "com" / menuName))).begin
      ([menu].map (named outageSetting))).sweep outageSetting [0, 0, 0, 0]

/-- The next build of `menu`. -/
def laterBuild : Build :=
  (Build.start (outageBuild.sweep outageSetting [0]).cache
    (outageBuild.sweep outageSetting [0]).disk).begin ([menu].map (named menuSetting))

/-- The visit of `menu` in the next build, when it is about to look for the module. -/
def laterVisit : Visit :=
  { component := named menuSetting menu, ancestors := [], isChild := false, run := 0
    stage := .looking [] }

set_option maxRecDepth 100000 in
theorem laterBuild_steps :
    (Turn.deed? outageSetting ⟨outageBuild, 0⟩ = some (.message menu) ∧
      outageBuild.disk.takes outageSetting.workshop (.message menu) = true ∧
      (outageBuild.step? outageSetting 0).isSome) ∧
    (Turn.deed? menuSetting ⟨laterBuild, 0⟩ = none ∧ (laterBuild.step? menuSetting 0).isSome) ∧
    (laterBuild.sweep menuSetting [0]).visits[0]? = some laterVisit ∧
    (laterBuild.sweep menuSetting [0]).disk.holds laterVisit.component.identity.path = true := by
  decide +kernel

theorem exists_history_laterBuild :
    ∃ events, History ⟨"/w"⟩ events menuSetting (laterBuild.sweep menuSetting [0]) ∧
      lastDeed? menuName events = some (outageSetting.workshop, .message menu) := by
  obtain ⟨⟨hdeed, htakes, hlost⟩, ⟨hnone, hlater⟩, -⟩ := laterBuild_steps
  have hmenu : BuildsIn ⟨"/w"⟩ menuSetting := ⟨.jsx, "r", "c", rfl⟩
  have houtage : BuildsIn ⟨"/w"⟩ outageSetting := ⟨.jsx, "r", "c", rfl⟩
  have hplain : IsPlainName menuName := (hmenu.isProper.isModuleName menu).isPlainName
  obtain ⟨_, hserved⟩ : ∃ events, History ⟨"/w"⟩ events menuSetting servedBuild := by
    unfold servedBuild
    exact ((history_start hmenu).begin [menu]).exists_sweep _
  have hdeleted := hserved.fresh_of_deletion hplain houtage
  obtain ⟨earlier, houtageBuild⟩ : ∃ events, History ⟨"/w"⟩ events outageSetting outageBuild := by
    unfold outageBuild
    exact (hdeleted.begin [menu]).exists_sweep _
  have hbegun : History ⟨"/w"⟩ (.turn outageSetting ⟨outageBuild, 0⟩ :: earlier) menuSetting
      laterBuild := by
    unfold laterBuild
    exact ((houtageBuild.step_sweep hlost).fresh hmenu).begin [menu]
  refine ⟨_, hbegun.step_sweep hlater, ?_⟩
  rw [lastDeed?, hnone, lastDeed?, hdeed]
  exact if_pos ⟨rfl, htakes⟩

theorem read_laterBuild {events : List Event}
    (hhistory : History ⟨"/w"⟩ events menuSetting (laterBuild.sweep menuSetting [0]))
    (hlast : lastDeed? menuName events = some (outageSetting.workshop, .message menu)) :
    (laterBuild.sweep menuSetting [0]).disk.read laterVisit.component.identity.path =
      .ok ((Deed.message menu).content outageSetting.workshop) := by
  have hmenu := hhistory.buildsIn
  have hreflects := hhistory.reflects (hmenu.isProper.isModuleName menu)
  exact hreflects.read_iff.2 ⟨_, _, hlast, rfl⟩

theorem hits_laterVisit : Turn.Hits ⟨laterBuild.sweep menuSetting [0], 0⟩ laterVisit [] :=
  ⟨laterBuild_steps.2.2.1, rfl, laterBuild_steps.2.2.2⟩

theorem hit_finds_message :
    ∃ events content,
      History ⟨"/w"⟩ events menuSetting (laterBuild.sweep menuSetting [0]) ∧
      Turn.Hits ⟨laterBuild.sweep menuSetting [0], 0⟩ laterVisit [] ∧
      (laterBuild.sweep menuSetting [0]).disk.read laterVisit.component.identity.path =
        .ok content ∧
      ¬IsGenuine events menuName content := by
  obtain ⟨events, hhistory, hlast⟩ := exists_history_laterBuild
  exact ⟨events, _, hhistory, hits_laterVisit, read_laterBuild hhistory hlast, fun hgenuine =>
    hgenuine.not_message outageSetting.workshop menu rfl⟩

theorem hit_isGenuine_iff_of_menu :
    ∃ events content,
      History ⟨"/w"⟩ events menuSetting (laterBuild.sweep menuSetting [0]) ∧
      Turn.Hits ⟨laterBuild.sweep menuSetting [0], 0⟩ laterVisit [] ∧
      (laterBuild.sweep menuSetting [0]).disk.read laterVisit.component.identity.path =
        .ok content ∧
      (IsGenuine events menuName content ↔ ¬WrittenLast menuName events (·.stage = .failing)) := by
  obtain ⟨events, hhistory, hlast⟩ := exists_history_laterBuild
  have hread := read_laterBuild hhistory hlast
  exact ⟨events, _, hhistory, hits_laterVisit, hread,
    hit_isGenuine_iff hhistory hits_laterVisit hread⟩

/-! ### What shape a module has -/

/--
**What shape a module has.** The module of a component is an entry exactly if it was written last for
a source that refers to the component itself, and the component was served.
-/
theorem isEntryArtifact_iff (hhistory : History directory events setting build)
    (reference : Reference) :
    (∃ content, build.disk.read (setting.workshop.naming.identity reference).path = .ok content ∧
        IsEntryArtifact content) ↔
      WrittenLast (setting.workshop.naming.moduleName reference) events
        fun visit => visit.isChild = false ∧ visit.stage ≠ .failing := by
  have hsetting := hhistory.buildsIn
  have hreflects := hhistory.reflects (hsetting.isProper.isModuleName reference)
  rw [hsetting.path_eq reference]
  constructor
  · rintro ⟨content, hread, hentry⟩
    obtain ⟨workshop, deed, hlast, rfl⟩ := hreflects.read_iff.1 hread
    obtain ⟨setting', turn, writer, hturn, rfl, hwriter, hdeed, hfaithful, hnamed, -⟩ :=
      hhistory.exists_turn hlast
    obtain ⟨workshop', other, payload, closure, heq⟩ := hentry
    have hshape : deed.shape = .entry :=
      shape_eq_of_content deed (.entry other payload closure) hnamed trivial heq
    exact ⟨setting', turn, writer, deed, hturn, hwriter, hdeed,
      (shape_eq_entry_iff hfaithful hdeed).1 hshape, hlast⟩
  · rintro ⟨setting', turn, writer, deed, hturn, hwriter, hdeed, hsuch, hlast⟩
    have hfaithful := (hhistory.turn hturn).2 turn.index writer hwriter
    have hshape := (shape_eq_entry_iff hfaithful hdeed).2 hsuch
    refine ⟨_, hreflects.read_iff.2 ⟨setting'.workshop, deed, hlast, rfl⟩, ?_⟩
    cases deed with
    | entry other payload closure => exact ⟨setting'.workshop, other, payload, closure, rfl⟩
    | _ => cases hshape

/-- The build of `app`, which needs `menu`, when it is over. -/
def finishedBuild : Build :=
  menuBuild.sweep menuSetting [0]

/-- The next build, for a source that refers to `menu`, when it is over. -/
def reusingBuild : Build :=
  ((Build.start finishedBuild.cache finishedBuild.disk).begin
    ([menu].map (named menuSetting))).sweep menuSetting [0, 0, 0]

/-- The module of `menu` in the first build, which needs it for `app`. -/
def menuDeed : Deed :=
  .dependency menu { runtime := "function () \x7b\x7d", deps := [] } []

theorem history_menuOpening :
    History ⟨"/w"⟩ [] menuSetting (menuOpening.withDisk .empty) :=
  (history_start ⟨.jsx, "r", "c", rfl⟩).begin [⟨"ui", "app", "1"⟩]

theorem finishedBuild_eq :
    finishedBuild = menuOpening.sweep menuSetting [0, 0, 0, 1, 1, 1, 1, 1, 0, 0, 0] :=
  (sweep_append menuSetting menuOpening [0, 0, 0, 1, 1, 1, 1, 1, 0, 0] [0]).symm

set_option maxRecDepth 100000 in
theorem reusingBuild_computed :
    (strides? menuSetting [] menuOpening [0, 0, 0, 1, 1, 1, 1, 1, 0, 0, 0]).any (fun last =>
      (strides? menuSetting [menu] ((Build.start last.cache .empty).begin
          ([menu].map (named menuSetting))) [0, 0, 0]).any fun next =>
        (next.visits[0]?.map fun visit =>
          (visit.component.reference, visit.isChild, visit.stage)) = some (menu, false, .done) ∧
        next.reports[0]? = some { Report.zero with cacheHits := 1 } ∧
        (strideVisits menuSetting ((Build.start last.cache .empty).begin
          ([menu].map (named menuSetting))) [0, 0, 0]).filterMap (writes? menuSetting menuName) =
            []) = true ∧
    ((strideVisits menuSetting menuOpening [0, 0, 0, 1, 1, 1, 1, 1, 0, 0, 0]).filterMap
      (writes? menuSetting menuName)).head? = some (menuSetting.workshop, menuDeed) := by
  decide +kernel

/-- What is at `menu` after the next build is its module for `app`, which was found there. -/
theorem exists_history_reusingBuild :
    ∃ events, History ⟨"/w"⟩ events menuSetting reusingBuild ∧
      lastDeed? menuName events = some (menuSetting.workshop, menuDeed) ∧
      (reusingBuild.visits[0]?.map fun visit =>
        (visit.component.reference, visit.isChild, visit.stage)) = some (menu, false, .done) ∧
      reusingBuild.reports[0]? = some { Report.zero with cacheHits := 1 } := by
  obtain ⟨hstrides, hfirst⟩ := reusingBuild_computed
  obtain ⟨last, hlast, hchecked⟩ := (Option.any_eq_true _ _).1 hstrides
  obtain ⟨next, hnext, hchecked⟩ := (Option.any_eq_true _ _).1 hchecked
  obtain ⟨hvisit, hreport, hnone⟩ := of_decide_eq_true hchecked
  -- The first build writes the module of `menu`.
  obtain ⟨disk, hsweep, hready, hfinished, hwritten⟩ :=
    history_menuOpening.exists_last isReady_menuSetting hlast
  have hbefore := hwritten menuName
  rw [hfirst, Option.some_or] at hbefore
  have hfinal : finishedBuild = last.withDisk disk := finishedBuild_eq.trans hsweep
  -- The next one finds it and writes nothing.
  have hbegun : History ⟨"/w"⟩ _ menuSetting (((Build.start last.cache .empty).begin
      ([menu].map (named menuSetting))).withDisk disk) :=
    (hfinished.fresh hfinished.buildsIn).begin [menu]
  obtain ⟨after, hreusing, -, hhistory, hwritten'⟩ :=
    hbegun.exists_last (IsReady.hold hready hfinished hbefore) hnext
  have hlater := hwritten' menuName
  rw [hnone, hbefore] at hlater
  have heq : reusingBuild = next.withDisk after := by
    rw [reusingBuild, hfinal]
    exact hreusing
  rw [heq]
  exact ⟨_, hhistory, hlater, hvisit, hreport⟩

theorem hit_finds_dependency :
    (∃ events, History ⟨"/w"⟩ events menuSetting reusingBuild) ∧
      (reusingBuild.visits[0]?.map fun visit =>
        (visit.component.reference, visit.isChild, visit.stage)) = some (menu, false, .done) ∧
      reusingBuild.reports[0]? = some { Report.zero with cacheHits := 1 } ∧
      ¬∃ content, reusingBuild.disk.read (menuSetting.workshop.naming.identity menu).path =
          .ok content ∧ IsEntryArtifact content := by
  obtain ⟨events, hhistory, hlast, hvisit, hreport⟩ := exists_history_reusingBuild
  refine ⟨⟨events, hhistory⟩, hvisit, hreport, ?_⟩
  rintro ⟨content, hread, workshop, reference, payload, closure, rfl⟩
  have hmenu := hhistory.buildsIn
  obtain ⟨_, _, hwritten, heq⟩ :=
    (hhistory.reflects (hmenu.isProper.isModuleName menu)).read_iff.1 hread
  cases hlast.symm.trans hwritten
  have hshape := shape_eq_of_content menuDeed (.entry reference payload closure) nofun trivial heq.symm
  cases hshape

theorem isEntryArtifact_iff_of_menu :
    ∃ events, History ⟨"/w"⟩ events menuSetting reusingBuild ∧
      ((∃ content, reusingBuild.disk.read (menuSetting.workshop.naming.identity menu).path =
          .ok content ∧ IsEntryArtifact content) ↔
        WrittenLast menuName events fun visit => visit.isChild = false ∧ visit.stage ≠ .failing) := by
  obtain ⟨events, hhistory, -⟩ := exists_history_reusingBuild
  exact ⟨events, hhistory, isEntryArtifact_iff hhistory menu⟩

end Modules

end ComponentTags.Build
