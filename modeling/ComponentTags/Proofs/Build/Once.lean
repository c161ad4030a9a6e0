import ComponentTags.Proofs.Build.Claims
import ComponentTags.Proofs.Build.Requests

/-!
Once for each component. Only the visit that claimed a component asks for it and writes its modules,
and each visit passes these stages once. A visit that finds its component claimed changes nothing but
its own stage.
-/

namespace ComponentTags

/-- The component that is asked for. -/
def FetchRequest.key (request : FetchRequest) : ComponentKey :=
  { tag := request.reference.tag, identifier := request.identifier }

namespace Build

/-- The deeds of some turns, the last one first. -/
def deeds (setting : BuildSetting) (turns : List Turn) : List Deed :=
  turns.filterMap (Turn.deed? setting)

/-- The visit comes to a component that was claimed before. -/
def Turn.Defers (turn : Turn) (visit : Visit) : Prop :=
  turn.visit? = some visit ∧ visit.stage = .arriving ∧
    visit.component.key ∈ turn.before.knowledge.nodes

/-- The turn changes the stage of its visit, and nothing else of the build. -/
def Turn.IsIdle (setting : BuildSetting) (turn : Turn) : Prop :=
  ∃ stage, turn.before.step? setting turn.index = some (turn.before.atStage turn.index stage)

/-- How far a visit has come that claimed its component. -/
def progress : Stage → Nat
  | .arriving | .waiting => 0
  | .looking _ => 1
  | .queued => 2
  | .requesting => 3
  | .failing | .writing _ | .joining _ (some _) | .gathering _ _ => 4
  | .joining _ none | .done => 5

/-- The stages from here on come after the request. -/
def asking : Nat :=
  3

/-- The stages from here on come after the module was written. -/
def writing : Nat :=
  5

/-- Components that were each brought that far by the visit that claimed it, none of them twice. -/
structure Brought (level : Nat) (keys : List ComponentKey) (build : Build)
    (owner : ComponentKey → Option Nat) : Prop where
  once : keys.Nodup
  past : ∀ key ∈ keys, ∃ (i : Nat) (visit : Visit), build.visits[i]? = some visit ∧
    visit.component.key = key ∧ owner key = some i ∧ level ≤ progress visit.stage

section Steps

variable {setting : BuildSetting} {build next : Build} {owner owner' : ComponentKey → Option Nat}
  {index i : Nat} {visit : Visit} {children : List Visit} {stage : Stage} {knowledge : Knowledge}
  {cache : Cache} {level : Nat} {keys : List ComponentKey}

/-! ### Stages are passed once -/

theorem Move.progress_le (h : Move setting build visit knowledge cache children stage)
    (hstage : visit.stage ≠ .waiting) : progress visit.stage ≤ progress stage := by
  cases h with
  | release hwaiting => exact absurd hwaiting hstage
  | wait hstage | claimKnown _ hstage | claimUnknown hstage | hit _ hstage | miss _ hstage
  | lack hstage | send hstage | refuse _ hstage | takeDependency _ _ hstage
  | takeEntry _ _ hstage | apologize hstage | writeDependency _ _ hstage | joinDependency _ hstage
  | joinEntry _ _ hstage | pass _ _ _ _ hstage | gather _ _ _ _ hstage | writeEntry _ _ _ hstage =>
      rw [hstage]
      simp only [progress, joiningStage]
      decide

theorem Brought.advance (h : Brought level keys build owner)
    (hguarded : Guarded setting build owner)
    (hstep : Advances setting build index visit children stage next)
    (howner : Extends owner owner' visit.component.key index) : Brought level keys next owner' where
  once := h.once
  past key hkey := by
    obtain ⟨i, other, hother, rfl, hown, hpast⟩ := h.past key hkey
    by_cases hindex : i = index
    · subst hindex
      obtain rfl := Option.some.inj (hstep.found.symm.trans hother)
      have hstage : visit.stage ≠ .waiting := fun hwaiting =>
        hguarded.not_owner hother hwaiting rfl hown
      exact ⟨i, _, hstep.own, rfl, howner.kept _ _ hown,
        Nat.le_trans hpast (hstep.move.progress_le hstage)⟩
    · exact ⟨i, other, hstep.keeps hindex hother, rfl, howner.kept _ _ hown, hpast⟩

theorem Brought.cons (h : Brought level keys build owner) (hguarded : Guarded setting build owner)
    (hstep : Advances setting build index visit children stage next)
    (howner : Extends owner owner' visit.component.key index)
    (hown : owner visit.component.key = some index) (hbefore : progress visit.stage < level)
    (hafter : level ≤ progress stage) : Brought level (visit.component.key :: keys) next owner' where
  once := by
    refine List.nodup_cons.2 ⟨fun hmem => ?_, h.once⟩
    obtain ⟨i, other, hother, hkey, hown', hpast⟩ := h.past _ hmem
    obtain rfl := Option.some.inj (hown.symm.trans hown')
    obtain rfl := Option.some.inj (hstep.found.symm.trans hother)
    omega
  past := List.forall_mem_cons.2
    ⟨⟨index, _, hstep.own, rfl, howner.kept _ _ hown, hafter⟩,
      (h.advance hguarded hstep howner).past⟩

theorem Brought.begin (h : Brought level keys build owner) (components : List NamedReference) :
    Brought level keys (build.begin components) owner where
  once := h.once
  past key hkey := by
    obtain ⟨i, visit, hvisit, hrest⟩ := h.past key hkey
    exact ⟨i, visit, getElem?_begin_of_some components hvisit, hrest⟩

/-! ### What a step asks for and writes -/

theorem key_of_asks? {request : FetchRequest} (h : asks? setting visit = some request) :
    visit.stage = .queued ∧ request.key = visit.component.key ∧
      setting.registry.find? visit.component.reference.tag ≠ none := by
  unfold asks? at h
  split at h
  · next hstage =>
      obtain ⟨rule, hrule, rfl⟩ := Option.map_eq_some_iff.1 h
      exact ⟨hstage, rfl, by simp [hrule]⟩
  · cases h

theorem Move.asked (h : Move setting build visit knowledge cache children stage)
    (hstage : visit.stage = .queued)
    (hrule : setting.registry.find? visit.component.reference.tag ≠ none) :
    asking ≤ progress stage := by
  cases h with
  | lack _ hnone => exact absurd hnone hrule
  | send => exact Nat.le_refl _
  | _ => simp_all

theorem Move.wrote {deed : Deed} (h : Move setting build visit knowledge cache children stage)
    (hdeed : visit.deed? setting = some deed) :
    IsUnderWay visit.stage ∧ progress visit.stage < writing ∧ writing ≤ progress stage := by
  cases h with
  | apologize hstage | writeDependency _ _ hstage | writeEntry _ _ _ hstage =>
      rw [hstage]
      exact ⟨trivial, Nat.lt_succ_self 4, Nat.le_refl _⟩
  | pass _ _ _ _ hstage hpending | gather _ _ _ _ hstage hpending =>
      simp [Visit.deed?, hstage, hpending] at hdeed
  | _ => simp_all [Visit.deed?]

/-- A visit that is not the one that claimed its component only waits. -/
theorem Guarded.isIdle (h : Guarded setting build owner)
    (hfound : build.visits[index]? = some visit)
    (howner : Extends owner owner' visit.component.key index)
    (hnext : build.step? setting index = some next)
    (hother : owner' visit.component.key ≠ some index) : Turn.IsIdle setting ⟨build, index⟩ := by
  have hbefore : owner visit.component.key ≠ some index := fun hown =>
    hother (howner.kept _ _ hown)
  unfold step? at hnext
  rw [hfound] at hnext
  dsimp only at hnext
  rcases h.others index visit hfound hbefore with harriving | ⟨hwaiting | hdone, -⟩
  · have hmet : visit.component.key ∈ build.knowledge.nodes :=
      Classical.byContradiction fun hnew => hother (h.owner_of_claims howner hnew)
    refine ⟨.waiting, ?_⟩
    simp [step?, hfound, harriving, arrive, hmet]
  · rw [hwaiting] at hnext
    dsimp only at hnext
    split at hnext
    · cases hnext
    · next hopened =>
        refine ⟨.done, ?_⟩
        simp [step?, hfound, hwaiting, hopened]
  · rw [hdone] at hnext
    cases hnext

theorem Move.ne_arriving (h : Move setting build visit knowledge cache children stage) :
    stage ≠ .arriving := by
  cases h <;> nofun

/-! ### All turns of a build -/

variable {turns : List Turn} {disk : Disk}

/-- What the turns of a build asked for and wrote, and which of them did nothing. -/
structure Single (setting : BuildSetting) (disk : Disk) (turns : List Turn) (build : Build)
    (owner : ComponentKey → Option Nat) : Prop where
  guarded : Guarded setting build owner
  asked : Brought asking (build.requests.map FetchRequest.key).reverse build owner
  written : Brought writing
    ((deeds setting turns).map fun deed => setting.workshop.naming.key deed.reference) build owner
  disk : build.disk = (deeds setting turns).foldr
    (fun deed disk => (disk.perform setting.workshop (some deed)).1) disk
  took : ∀ turn ∈ turns, ∃ visit stage, turn.visit? = some visit ∧
    build.visits[turn.index]? = some { visit with stage } ∧ stage ≠ .arriving ∧
      (owner visit.component.key = some turn.index ∨ turn.IsIdle setting)
  defers : ∀ turn ∈ turns, ∀ visit, turn.Defers visit →
    owner visit.component.key ≠ some turn.index ∧ (owner visit.component.key).isSome

theorem single_start (setting : BuildSetting) (cache : Cache) (disk : Disk) :
    Single setting disk [] (Build.start cache disk) fun _ => none where
  guarded := guarded_start setting cache disk
  asked := ⟨List.nodup_nil, nofun⟩
  written := ⟨List.nodup_nil, nofun⟩
  disk := rfl
  took := nofun
  defers := nofun

theorem Single.begin (h : Single setting disk turns build owner) (components : List NamedReference) :
    Single setting disk turns (build.begin components) owner where
  guarded := h.guarded.begin components
  asked := h.asked.begin components
  written := h.written.begin components
  disk := h.disk
  took turn hturn := by
    obtain ⟨visit, stage, hvisit, hnow, hrest⟩ := h.took turn hturn
    exact ⟨visit, stage, hvisit, getElem?_begin_of_some components hnow, hrest⟩
  defers := h.defers

theorem Single.asked_advance (h : Single setting disk turns build owner)
    (hstep : Advances setting build index visit children stage next)
    (howner : Extends owner owner' visit.component.key index)
    (hnext : build.step? setting index = some next) :
    Brought asking (next.requests.map FetchRequest.key).reverse next owner' := by
  rw [requests_step hstep.found hnext]
  cases hasks : asks? setting visit with
  | none =>
      rw [Option.toList_none, List.append_nil]
      exact h.asked.advance h.guarded hstep howner
  | some request =>
      obtain ⟨hstage, hkey, hrule⟩ := key_of_asks? hasks
      have hown := h.guarded.owner_eq hstep.found hstage trivial
      rw [Option.toList_some, List.map_append, List.reverse_append, List.map_singleton,
        List.reverse_singleton, List.singleton_append, hkey]
      exact h.asked.cons h.guarded hstep howner hown (by rw [hstage]; exact Nat.lt_succ_self 2)
        (hstep.move.asked hstage hrule)

theorem Single.advance (h : Single setting disk turns build owner)
    (hfaithful : AllFaithful setting build)
    (hstep : Advances setting build index visit children stage next)
    (howner : Extends owner owner' visit.component.key index)
    (hguarded : Guarded setting next owner') (hnext : build.step? setting index = some next) :
    Single setting disk (⟨build, index⟩ :: turns) next owner' := by
  have hdeeds : deeds setting (⟨build, index⟩ :: turns) =
      (visit.deed? setting).toList ++ deeds setting turns := by
    rw [deeds, List.filterMap_cons, Turn.deed?, Turn.visit?, hstep.found, Option.bind_some]
    cases visit.deed? setting <;> rfl
  refine ⟨hguarded, h.asked_advance hstep howner hnext, ?_, ?_, ?_, ?_⟩
  · rw [hdeeds]
    cases hdeed : visit.deed? setting with
    | none => exact h.written.advance h.guarded hstep howner
    | some deed =>
        obtain ⟨hway, hbefore, hafter⟩ := hstep.move.wrote hdeed
        have hkey : setting.workshop.naming.key deed.reference = visit.component.key := by
          rw [deed?_reference hdeed, (hfaithful index visit hstep.found).component]
          rfl
        rw [Option.toList_some, List.singleton_append, List.map_cons, hkey]
        exact h.written.cons h.guarded hstep howner (h.guarded.owner_eq hstep.found rfl hway)
          hbefore hafter
  · rw [hdeeds, hstep.disk, h.disk]
    cases visit.deed? setting <;> rfl
  · refine List.forall_mem_cons.2 ⟨⟨visit, stage, hstep.found, hstep.own,
      hstep.move.ne_arriving, ?_⟩, fun turn hturn => ?_⟩
    · by_cases hown : owner' visit.component.key = some index
      · exact .inl hown
      · exact .inr (h.guarded.isIdle hstep.found howner hnext hown)
    · obtain ⟨found, stage', hfound, hnow, hstage, hidle⟩ := h.took turn hturn
      have hidle' := hidle.imp_left (howner.kept _ _)
      by_cases hindex : turn.index = index
      · rw [hindex, hstep.found] at hnow
        obtain rfl := Option.some.inj hnow
        exact ⟨found, stage, hfound, by rw [hindex, hstep.own], hstep.move.ne_arriving, hidle'⟩
      · exact ⟨found, stage', hfound, hstep.keeps hindex hnow, hstage, hidle'⟩
  · refine List.forall_mem_cons.2 ⟨fun found hdefers => ?_, fun turn hturn found hdefers => ?_⟩
    · obtain ⟨hfound, hstage, hmet⟩ := hdefers
      obtain rfl : found = visit := Option.some.inj (hfound.symm.trans hstep.found)
      obtain ⟨i, hi⟩ := Option.isSome_iff_exists.1 ((h.guarded.isSome_iff _).2 hmet)
      have hown := howner.kept _ _ hi
      refine ⟨fun heq => ?_, by rw [hown]; rfl⟩
      obtain rfl := Option.some.inj (hown.symm.trans heq)
      exact h.guarded.not_owner hstep.found hstage rfl hi
    · obtain ⟨hne, hsome⟩ := h.defers turn hturn found hdefers
      obtain ⟨i, hi⟩ := Option.isSome_iff_exists.1 hsome
      have hown := howner.kept _ _ hi
      exact ⟨fun heq => hne (hi.trans (hown.symm.trans heq)), by rw [hown]; rfl⟩

end Steps

section Runs

variable {setting : BuildSetting} {build : Build} {turns : List Turn} {cache : Cache} {disk : Disk}

theorem Run.single (hrun : Run setting (Build.start cache disk) turns build) :
    ∃ owner, Single setting disk turns build owner := by
  induction hrun with
  | start => exact ⟨_, single_start setting cache disk⟩
  | begin references _ ih =>
      obtain ⟨owner, hsingle⟩ := ih
      exact ⟨owner, hsingle.begin _⟩
  | step index hrun hnext ih =>
      obtain ⟨owner, hsingle⟩ := ih
      obtain ⟨visit, children, stage, hstep⟩ := exists_advances hnext
      obtain ⟨owner', hguarded, howner⟩ := hsingle.guarded.advance hstep
      exact ⟨owner', hsingle.advance hrun.allFaithful hstep howner hguarded hnext⟩

/-- The visit is over, or waits for the gate of its component, or is over after its next turn. -/
def Ends (setting : BuildSetting) (build : Build) (index : Nat) (visit : Visit) : Prop :=
  visit.stage = .done ∨ visit.stage = .waiting ∧
    (build.knowledge.nodes[visit.component.key]? = some .closed ∨
      build.step? setting index = some (build.atStage index .done))

/-- The turns of a visit that found its component claimed do nothing, and it waits or is over. -/
theorem Single.idle {owner : ComponentKey → Option Nat}
    (h : Single setting disk turns build owner) {turn : Turn} (hturn : turn ∈ turns) {visit : Visit}
    (hdefers : turn.Defers visit) :
    (∀ other ∈ turns, other.index = turn.index → other.IsIdle setting) ∧
      ∃ stage, build.visits[turn.index]? = some { visit with stage } ∧
        Ends setting build turn.index { visit with stage } := by
  have hother := (h.defers turn hturn visit hdefers).1
  obtain ⟨found, stage, hfound, hnow, hstage, -⟩ := h.took turn hturn
  obtain rfl : found = visit := Option.some.inj (hfound.symm.trans hdefers.1)
  refine ⟨fun other hmem hindex => ?_, stage, hnow, ?_⟩
  · obtain ⟨found', stage', -, hnow', -, hidle⟩ := h.took other hmem
    rw [hindex, hnow] at hnow'
    have hsame : found.component = found'.component := by
      injection hnow' with heq
      injection heq
    rw [hindex, ← hsame] at hidle
    exact hidle.resolve_left hother
  · rcases h.guarded.others turn.index _ hnow hother with harriving | ⟨hwaiting | hdone, -⟩
    · exact absurd harriving hstage
    · refine .inr ⟨hwaiting, ?_⟩
      by_cases hclosed : build.knowledge.nodes[found.component.key]? = some .closed
      · exact .inl hclosed
      · obtain rfl : stage = .waiting := hwaiting
        exact .inr (by simp [step?, hnow, hclosed])
    · exact .inl hdone

/--
**Once for each component.** In every order of turns of any number of calls, each component is asked
for at most once and its modules are written at most once; nothing else changes the disk. A visit that
comes to a component that was claimed before changes nothing at all but its own stage, in all its
turns, until it is over.
-/
theorem asks_and_writes_once (hrun : Run setting (Build.start cache disk) turns build) :
    (build.requests.map FetchRequest.key).Nodup ∧
      ((deeds setting turns).map fun deed => setting.workshop.naming.key deed.reference).Nodup ∧
      build.disk = (deeds setting turns).foldr
        (fun deed disk => (disk.perform setting.workshop (some deed)).1) disk ∧
      ∀ turn ∈ turns, ∀ visit, turn.Defers visit →
        (∀ other ∈ turns, other.index = turn.index → other.IsIdle setting) ∧
          ∃ stage, build.visits[turn.index]? = some { visit with stage } ∧
            Ends setting build turn.index { visit with stage } := by
  obtain ⟨owner, hsingle⟩ := hrun.single
  exact ⟨(List.reverse_perm _).nodup_iff.1 hsingle.asked.once, hsingle.written.once, hsingle.disk,
    fun turn hturn visit hdefers => hsingle.idle hturn hdefers⟩

/-- Two calls for `app`, when the first one claimed it and the second one comes to it. -/
def jointBuild : Build :=
  (((Build.start .inMemory .empty).begin ([⟨"ui", "app", "1"⟩].map (named menuSetting))).sweep
    menuSetting [0]).begin ([⟨"ui", "app", "1"⟩].map (named menuSetting))

/-- The two calls when they are over. -/
def overlappedBuild : Build :=
  (jointBuild.sweep menuSetting [1]).sweep menuSetting
    ((List.range 12).flatMap fun _ => List.range 3)

set_option maxRecDepth 100000 in
theorem overlappedBuild_strides :
    (strides? menuSetting [] menuOpening [0]).any (fun first =>
      (strides? menuSetting [] (first.begin ([⟨"ui", "app", "1"⟩].map (named menuSetting)))
        (1 :: (List.range 12).flatMap fun _ => List.range 3)).any (fun last =>
          last.isFinished = true ∧ last.requests.length = 2) = true ∧
      (first.begin ([⟨"ui", "app", "1"⟩].map (named menuSetting))).visits[1]?.any (fun visit =>
        visit.stage = .arriving ∧ visit.component.key ∈ first.knowledge.nodes) = true) = true := by
  decide +kernel

theorem overlappedBuild_computed :
    overlappedBuild.isFinished = true ∧ overlappedBuild.requests.length = 2 ∧
      jointBuild.visits[1]?.any (fun visit => visit.stage = .arriving ∧
        visit.component.key ∈ jointBuild.knowledge.nodes) = true := by
  obtain ⟨first, hfirst, hchecked⟩ := (Option.any_eq_true _ _).1 overlappedBuild_strides
  obtain ⟨hstrides, harrives⟩ := of_decide_eq_true hchecked
  obtain ⟨last, hlast, hchecked⟩ := (Option.any_eq_true _ _).1 hstrides
  obtain ⟨hfinished, hlength⟩ := of_decide_eq_true hchecked
  obtain ⟨disk, hopened, hready⟩ := isReady_menuSetting.sweep allFaithful_menuOpening hfirst
  have hopened : menuOpening.sweep menuSetting [0] = first.withDisk disk := hopened
  have hfaithful : AllFaithful menuSetting first := by
    have hopening := allFaithful_menuOpening.sweep [0]
    rw [hopened] at hopening
    exact hopening
  have hjoint : jointBuild =
      (first.begin ([⟨"ui", "app", "1"⟩].map (named menuSetting))).withDisk disk := by
    rw [jointBuild, ← menuOpening, hopened]
    rfl
  obtain ⟨disk', hsweep, -⟩ := hready.sweep (hfaithful.begin [⟨"ui", "app", "1"⟩]) hlast
  rw [overlappedBuild, ← sweep_append, hjoint, List.singleton_append, hsweep]
  exact ⟨hfinished, hlength, harrives⟩

theorem asks_and_writes_once_of_overlap :
    ∃ turns, Run menuSetting (Build.start .inMemory .empty) turns overlappedBuild ∧
      overlappedBuild.isFinished = true ∧ overlappedBuild.requests.length = 2 ∧
      (∃ turn ∈ turns, ∃ visit, turn.Defers visit) ∧
      (overlappedBuild.requests.map FetchRequest.key).Nodup ∧
      ((deeds menuSetting turns).map fun deed =>
        menuSetting.workshop.naming.key deed.reference).Nodup ∧
      overlappedBuild.disk = (deeds menuSetting turns).foldr
        (fun deed disk => (disk.perform menuSetting.workshop (some deed)).1) .empty ∧
      ∀ turn ∈ turns, ∀ visit, turn.Defers visit →
        (∀ other ∈ turns, other.index = turn.index → other.IsIdle menuSetting) ∧
          ∃ stage, overlappedBuild.visits[turn.index]? = some { visit with stage } ∧
            Ends menuSetting overlappedBuild turn.index { visit with stage } := by
  obtain ⟨hfinished, hlength, harrives⟩ := overlappedBuild_computed
  obtain ⟨visit, hvisit, hdefers⟩ := (Option.any_eq_true _ _).1 harrives
  obtain ⟨hstage, hmet⟩ := of_decide_eq_true hdefers
  have hstep : (jointBuild.step? menuSetting 1).isSome = true := by
    rw [step?, hvisit]
    dsimp only
    rw [hstage]
    rfl
  have hstart : Run menuSetting (Build.start .inMemory .empty) [] (Build.start .inMemory .empty) :=
    .start
  obtain ⟨first, hfirst⟩ := (hstart.begin [⟨"ui", "app", "1"⟩]).exists_sweep [0]
  obtain ⟨next, hnext⟩ := Option.isSome_iff_exists.1 hstep
  have hsweep : jointBuild.sweep menuSetting [1] = next := by
    rw [sweep, hnext]
    rfl
  have hsecond := (hfirst.begin [⟨"ui", "app", "1"⟩]).step 1 hnext
  obtain ⟨more, hrest⟩ := (Run.start : Run menuSetting next [] next).exists_sweep
    ((List.range 12).flatMap fun _ => List.range 3)
  have hrun := hsecond.trans hrest
  rw [← hsweep] at hrun
  exact ⟨_, hrun, hfinished, hlength,
    ⟨_, List.mem_append_right _ List.mem_cons_self, visit, hvisit, hstage, hmet⟩,
    asks_and_writes_once hrun⟩

end Runs

end Build

end ComponentTags
